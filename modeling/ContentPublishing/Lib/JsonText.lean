import ContentPublishing.Lib.Json
import Mathlib.Data.List.Sort
import Mathlib.Data.List.TakeWhile
import Mathlib.Data.Nat.Notation

/-!
# Reading JSON texts

`JSON.parse` by recursive descent. A number literal is converted by a function of the
script, which is a parameter; the value keeps the text it converts to. The text that
`stringify` writes for a value that a script can hold is read back as that value, so
different values have different texts.
-/
namespace ContentPublishing.Json

/-! ## Tokens -/

def isWhitespace (c : Char) : Bool := c.toNat ∈ [0x09, 0x0a, 0x0d, 0x20]

def skipWhitespace (cs : List Char) : List Char := cs.dropWhile isWhitespace

def hexValue (c : Char) : Option ℕ :=
  if 0x30 ≤ c.toNat ∧ c.toNat ≤ 0x39 then some (c.toNat - 0x30)
  else if 0x41 ≤ c.toNat ∧ c.toNat ≤ 0x46 then some (c.toNat - 0x37)
  else if 0x61 ≤ c.toNat ∧ c.toNat ≤ 0x66 then some (c.toNat - 0x57)
  else none

/-- The four digits of a `\u` escape. -/
def codeUnit : List Char → Option (ℕ × List Char)
  | a :: b :: c :: d :: cs => do
      let high := (← hexValue a) * 16 + (← hexValue b)
      let low := (← hexValue c) * 16 + (← hexValue d)
      return (high * 256 + low, cs)
  | _ => none

/-- A `\u` escape, or two of them that make up one character. A surrogate that stands
alone is no character. -/
def unicodeEscape (cs : List Char) : Option (Char × List Char) := do
  let (unit, cs) ← codeUnit cs
  if unit < 0xd800 ∨ 0xe000 ≤ unit then return (Char.ofNat unit, cs)
  match cs with
  | '\\' :: 'u' :: cs => do
      let (low, cs) ← codeUnit cs
      if unit < 0xdc00 ∧ 0xdc00 ≤ low ∧ low < 0xe000 then
        return (Char.ofNat (0x10000 + (unit - 0xd800) * 0x400 + (low - 0xdc00)), cs)
      else none
  | _ => none

/-- What follows a backslash. -/
def parseEscape : List Char → Option (Char × List Char)
  | [] => none
  | c :: cs =>
      match c.toNat with
      | 0x22 | 0x2f | 0x5c => some (c, cs)
      | 0x62 => some (Char.ofNat 0x08, cs)
      | 0x66 => some (Char.ofNat 0x0c, cs)
      | 0x6e => some (Char.ofNat 0x0a, cs)
      | 0x72 => some (Char.ofNat 0x0d, cs)
      | 0x74 => some (Char.ofNat 0x09, cs)
      | 0x75 => unicodeEscape cs
      | _ => none

/-- One character inside a string literal. -/
def parseChar : List Char → Option (Char × List Char)
  | [] => none
  | c :: cs =>
      if c.toNat = 0x5c then parseEscape cs
      else if c.toNat < 0x20 then none
      else some (c, cs)

/-- The rest of a string literal after its opening quotation mark. -/
def parseString : ℕ → List Char → Option (List Char × List Char)
  | 0, _ => none
  | n + 1, cs =>
      match cs with
      | [] => none
      | c :: rest =>
          if c.toNat = 0x22 then some ([], rest)
          else do
            let (d, rest) ← parseChar (c :: rest)
            let (ds, rest) ← parseString n rest
            return (d :: ds, rest)

/-! ## Number literals -/

def isNumberChar (c : Char) : Bool := c.isDigit || c ∈ ['+', '-', '.', 'e', 'E']

/-- One digit or more. -/
def digits (cs : List Char) : Option (List Char) :=
  match cs with
  | c :: cs => if c.isDigit then some (cs.dropWhile Char.isDigit) else none
  | [] => none

def integerPart : List Char → Option (List Char)
  | '0' :: cs => some cs
  | cs => digits cs

def fractionPart : List Char → Option (List Char)
  | '.' :: cs => digits cs
  | cs => some cs

def exponentPart : List Char → Option (List Char)
  | c :: cs =>
      if c = 'e' ∨ c = 'E' then
        match cs with
        | '+' :: cs | '-' :: cs => digits cs
        | cs => digits cs
      else some (c :: cs)
  | [] => some []

def isLiteral (cs : List Char) : Bool :=
  cs.all isNumberChar &&
    ((match cs with | '-' :: cs => integerPart cs | cs => integerPart cs) >>= fractionPart >>=
      exponentPart) == some []

/-! ## Values -/

/-- The value of an array index, if the key is one. -/
def arrayIndex? (key : String) : Option ℕ :=
  if key.toList.all Char.isDigit ∧ (key = "0" ∨ key.toList.head?.all (· ≠ '0')) then
    key.toNat?.filter (· < 4294967295)
  else none

/-- Assigning a member keeps the place of a key that is already there. -/
def assign (fields : List (String × Json)) (field : String × Json) : List (String × Json) :=
  if field.1 ∈ fields.map Prod.fst then
    fields.map fun other => if other.1 = field.1 then field else other
  else fields ++ [field]

/-- The object with these members: array indices come first, by size. -/
def ofMembers (members : List (String × Json)) : List (String × Json) :=
  let fields := members.foldl assign []
  (fields.filter fun field => (arrayIndex? field.1).isSome).insertionSort
      (fun a b => (arrayIndex? a.1).getD 0 ≤ (arrayIndex? b.1).getD 0) ++
    fields.filter fun field => (arrayIndex? field.1).isNone

/-- The rest after a token of one character, with white space before it. -/
def token (code : ℕ) (cs : List Char) : Option (List Char) :=
  match skipWhitespace cs with
  | c :: cs => if c.toNat = code then some cs else none
  | [] => none

/-! ## Strings are read back -/

theorem token_cons {c : Char} (h : isWhitespace c = false) (code : ℕ) (cs : List Char) :
    token code (c :: cs) = if c.toNat = code then some cs else none := by
  rw [token, skipWhitespace, List.dropWhile_cons_of_neg (by simp [h])]

theorem hexValue_digitChar : ∀ n < 16, hexValue (Nat.digitChar n) = some n := by decide

theorem codeUnit_digits {n : ℕ} (h : n < 0x20) (cs : List Char) :
    codeUnit ('0' :: '0' :: Nat.digitChar (n / 16) :: Nat.digitChar (n % 16) :: cs) =
      some (n, cs) := by
  have hzero : hexValue '0' = some 0 := rfl
  simp only [codeUnit, hzero, hexValue_digitChar (n / 16) (by omega),
    hexValue_digitChar (n % 16) (by omega), bind, Option.bind, pure, Nat.zero_mul,
    Nat.zero_add, Nat.div_add_mod']

theorem parseChar_escape (c : Char) (cs : List Char) :
    parseChar (escape c ++ cs) = some (c, cs) := by
  have hc : Char.ofNat c.toNat = c := Char.ofNat_toNat c
  unfold escape
  split
  case h_8 n hb ht hn hf hr hq hs =>
    split
    · next hcontrol =>
        have hunicode : parseChar ("\\u00".toList ++
            [Nat.digitChar (c.toNat / 16), Nat.digitChar (c.toNat % 16)] ++ cs) =
              unicodeEscape ('0' :: '0' :: Nat.digitChar (c.toNat / 16) ::
                Nat.digitChar (c.toNat % 16) :: cs) := rfl
        rw [hunicode, unicodeEscape, codeUnit_digits hcontrol]
        simp [show c.toNat < 0xd800 by omega, hc]
    · next hplain =>
        rw [List.singleton_append, parseChar, if_neg hs, if_neg hplain]
  all_goals
    next hcode =>
      rw [hcode] at hc
      rw [← hc]
      rfl

theorem escape_ne_nil (c : Char) : escape c ≠ [] := by
  intro h
  have hread := parseChar_escape c []
  rw [h] at hread
  cases hread

/-- No character is written with a quotation mark in front. -/
theorem head_escape (c : Char) : ∀ d ∈ (escape c).head?, d.toNat ≠ 0x22 := by
  unfold escape
  split
  case h_8 n hb ht hn hf hr hq hs =>
    split
    · simp
    · simpa using hq
  all_goals simp

theorem parseString_flatMap (cs rest : List Char) {n : ℕ}
    (h : (cs.flatMap escape).length < n) {q : Char} (hq : q.toNat = 0x22) :
    parseString n (cs.flatMap escape ++ q :: rest) = some (cs, rest) := by
  induction cs generalizing n with
  | nil =>
      obtain ⟨m, rfl⟩ := Nat.exists_eq_succ_of_ne_zero (Nat.ne_of_gt (Nat.zero_lt_of_lt h))
      simp [parseString, hq]
  | cons c cs ih =>
      obtain ⟨m, rfl⟩ := Nat.exists_eq_succ_of_ne_zero (Nat.ne_of_gt (Nat.zero_lt_of_lt h))
      obtain ⟨d, ds, hd⟩ := List.exists_cons_of_ne_nil (escape_ne_nil c)
      have hhead : d.toNat ≠ 0x22 := head_escape c d (by simp [hd])
      have hchar := parseChar_escape c (cs.flatMap escape ++ q :: rest)
      rw [List.flatMap_cons, List.length_append, hd, List.length_cons] at h
      rw [hd, List.cons_append] at hchar
      rw [List.flatMap_cons, hd, List.append_assoc, List.cons_append, parseString]
      simp only [if_neg hhead, hchar, bind, Option.bind, ih (n := m) (by omega)]
      rfl

section Parser
variable (number : String → String)

def parseScalar (cs : List Char) : Option (Json × List Char) :=
  (cs.dropPrefix? "null".toList).map (Json.null, ·) <|>
    (cs.dropPrefix? "true".toList).map (Json.bool true, ·) <|>
    (cs.dropPrefix? "false".toList).map (Json.bool false, ·) <|>
    if isLiteral (cs.takeWhile isNumberChar) then
      some (.num (number (String.ofList (cs.takeWhile isNumberChar))), cs.dropWhile isNumberChar)
    else none

mutual

/-- A value, and what follows it. -/
def parseValue : ℕ → List Char → Option (Json × List Char)
  | 0, _ => none
  | n + 1, cs =>
      match token 0x22 cs, token 0x5b cs, token 0x7b cs with
      | some cs, _, _ => do
          let (s, cs) ← parseString n cs
          return (.str (String.ofList s), cs)
      | _, some cs, _ =>
          match token 0x5d cs with
          | some cs => some (.arr [], cs)
          | none => do
              let (elements, cs) ← parseElements n cs
              return (.arr elements, cs)
      | _, _, some cs =>
          match token 0x7d cs with
          | some cs => some (.obj [], cs)
          | none => do
              let (members, cs) ← parseMembers n cs
              return (.obj (ofMembers members), cs)
      | none, none, none => parseScalar number (skipWhitespace cs)

/-- Elements up to the closing bracket. -/
def parseElements : ℕ → List Char → Option (List Json × List Char)
  | 0, _ => none
  | n + 1, cs => do
      let (value, cs) ← parseValue n cs
      match token 0x2c cs with
      | some cs =>
          let (rest, cs) ← parseElements n cs
          return (value :: rest, cs)
      | none => return ([value], ← token 0x5d cs)

/-- Members up to the closing brace. -/
def parseMembers : ℕ → List Char → Option (List (String × Json) × List Char)
  | 0, _ => none
  | n + 1, cs => do
      let (name, cs) ← parseString n (← token 0x22 cs)
      let (value, cs) ← parseValue n (← token 0x3a cs)
      match token 0x2c cs with
      | some cs =>
          let (rest, cs) ← parseMembers n cs
          return ((String.ofList name, value) :: rest, cs)
      | none => return ([(String.ofList name, value)], ← token 0x7d cs)

end

/-- `JSON.parse(text)`, with `none` for a `SyntaxError`. -/
def parse (text : String) : Option Json :=
  match parseValue number (text.length + 1) text.toList with
  | some (value, rest) => if skipWhitespace rest = [] then some value else none
  | none => none

/-! ## Values are read back -/

/-- Whether an object that a script builds may have these keys, in this order. -/
def ordered (keys : List String) : Bool :=
  decide keys.Nodup &&
    decide ((keys.map arrayIndex?).Pairwise fun i j => (j.all fun j => i.any (· ≤ j)) = true)

mutual

/-- A value that a script can hold and that is written as itself. -/
def canonical : Json → Bool
  | .num text => isLiteral text.toList && number text == text
  | .arr elements => canonicalElements elements
  | .obj fields => ordered (fields.map Prod.fst) && canonicalFields fields
  | _ => true

def canonicalElements : List Json → Bool
  | [] => true
  | value :: rest => canonical value && canonicalElements rest

def canonicalFields : List (String × Json) → Bool
  | [] => true
  | field :: rest => canonicalField field && canonicalFields rest

def canonicalField : String × Json → Bool
  | (_, value) => canonical value

end

end Parser

theorem foldl_assign {fields : List (String × Json)} (h : (fields.map Prod.fst).Nodup) :
    fields.foldl assign [] = fields := by
  suffices ∀ front, ((front ++ fields).map Prod.fst).Nodup →
      fields.foldl assign front = front ++ fields by simpa using this [] (by simpa using h)
  clear h
  induction fields with
  | nil => simp
  | cons field fields ih =>
      intro front hfront
      have hnew : field.1 ∉ front.map Prod.fst := by
        rw [List.map_append, List.map_cons, List.nodup_append] at hfront
        exact fun hmem => hfront.2.2 _ hmem _ List.mem_cons_self rfl
      rw [List.foldl_cons, assign, if_neg hnew, ih _ (by simpa using hfront)]
      simp

theorem ofMembers_of_ordered {fields : List (String × Json)}
    (h : ordered (fields.map Prod.fst) = true) :
    ofMembers fields = fields := by
  simp only [ordered, Bool.and_eq_true, decide_eq_true_eq, List.map_map] at h
  obtain ⟨hnodup, hpairwise⟩ := h
  unfold ofMembers
  dsimp only
  rw [foldl_assign hnodup, List.Pairwise.insertionSort_eq]
  · clear hnodup
    induction fields with
    | nil => rfl
    | cons field fields ih =>
        rw [List.map_cons, List.pairwise_cons] at hpairwise
        have ih := ih hpairwise.2
        cases hfield : arrayIndex? field.1 with
        | none =>
            have hnone : ∀ other ∈ fields, arrayIndex? other.1 = none := by
              intro other hother
              have hlater := hpairwise.1 _ (List.mem_map_of_mem hother)
              rw [Function.comp_apply, hfield] at hlater
              simpa using hlater
            have hsome : fields.filter (fun field => (arrayIndex? field.1).isSome) = [] := by
              simpa using hnone
            simp [hfield, hsome] at ih ⊢
            simpa using hnone
        | some i =>
            simp only [List.filter_cons, hfield, Option.isSome_some, if_true,
              Option.isNone_some, Bool.false_eq_true, if_false, List.cons_append, ih]
  · rw [List.pairwise_map] at hpairwise
    refine (hpairwise.filter _).imp_of_mem fun {a b} ha hb hab => ?_
    rw [List.mem_filter] at ha hb
    obtain ⟨i, hi⟩ := Option.isSome_iff_exists.mp ha.2
    obtain ⟨j, hj⟩ := Option.isSome_iff_exists.mp hb.2
    simpa [hi, hj] using hab

/-! ## The round trip -/

/-- The text does not go on with a character of a number. -/
def Delimited (rest : List Char) : Prop := ∀ c ∈ rest.head?, isNumberChar c = false

theorem toList_quote (s : String) :
    (quote s).toList = Char.ofNat 0x22 :: (s.toList.flatMap escape ++ [Char.ofNat 0x22]) := by
  simp only [quote, String.toList_append, String.toList_ofList]
  rfl

/-- Texts with commas between them. -/
def joined (texts : List String) : List Char := (",".intercalate texts).toList

theorem joined_singleton (text : String) : joined [text] = text.toList := by
  rw [joined, String.intercalate_singleton]

theorem joined_cons_cons (text next : String) (texts : List String) :
    joined (text :: next :: texts) = text.toList ++ ',' :: joined (next :: texts) := by
  rw [joined, String.intercalate_cons_cons, String.toList_append, String.toList_append,
    List.append_assoc]
  rfl

/-- The characters that a value may begin with, white space apart. -/
def startsValue (c : Char) : Bool :=
  isNumberChar c || c.toNat ∈ [0x22, 0x5b, 0x7b, 0x66, 0x6e, 0x74]

theorem isDigit_code {c : Char} (h : c.isDigit = true) : 0x30 ≤ c.toNat ∧ c.toNat ≤ 0x39 := by
  simp only [Char.isDigit, Bool.and_eq_true, decide_eq_true_eq, ge_iff_le,
    UInt32.le_iff_toNat_le] at h
  exact h

theorem code_of_isNumberChar {c : Char} (h : isNumberChar c = true) :
    0x2b ≤ c.toNat ∧ c.toNat ≤ 0x65 ∧ c.toNat ∉ [0x2c, 0x3a, 0x5b, 0x5d] := by
  rw [isNumberChar, Bool.or_eq_true] at h
  rcases h with h | h
  · have hdigit := isDigit_code h
    simp only [List.mem_cons, List.not_mem_nil, or_false]
    omega
  · simp only [List.mem_cons, List.not_mem_nil, or_false, decide_eq_true_eq] at h
    rcases h with rfl | rfl | rfl | rfl | rfl <;> decide

theorem code_of_startsValue {c : Char} (h : startsValue c = true) :
    isWhitespace c = false ∧ c.toNat ∉ [0x2c, 0x3a, 0x5d, 0x7d] := by
  rw [startsValue, Bool.or_eq_true, decide_eq_true_eq] at h
  rcases h with h | h
  · obtain ⟨hmin, hmax, hother⟩ := code_of_isNumberChar h
    simp only [isWhitespace, List.mem_cons, List.not_mem_nil, or_false, decide_eq_false_iff_not]
      at hother ⊢
    omega
  · simp only [isWhitespace, List.mem_cons, List.not_mem_nil, or_false, decide_eq_false_iff_not]
      at h ⊢
    omega

section RoundTrip
variable {number : String → String}

theorem parseValue_scalar {c : Char} (hs : isWhitespace c = false)
    (hc : c.toNat ∉ [0x22, 0x5b, 0x7b]) (n : ℕ) (cs : List Char) :
    parseValue number (n + 1) (c :: cs) = parseScalar number (c :: cs) := by
  simp only [List.mem_cons, List.not_mem_nil, or_false, not_or] at hc
  simp only [parseValue, token_cons hs, if_neg hc.1, if_neg hc.2.1, if_neg hc.2.2]
  rw [skipWhitespace, List.dropWhile_cons_of_neg (by simp [hs])]

variable (number)

/-- The text of the value is read as the value, whatever follows. -/
def Reads (value : Json) : Prop :=
  ∀ ⦃n : ℕ⦄ ⦃rest : List Char⦄, value.stringify.length < n → Delimited rest →
    parseValue number n (value.stringify.toList ++ rest) = some (value, rest)

variable {number}

theorem reads_null : Reads number .null := by
  intro n rest hn _
  obtain ⟨m, rfl⟩ := Nat.exists_eq_succ_of_ne_zero (Nat.ne_of_gt (Nat.zero_lt_of_lt hn))
  refine (parseValue_scalar (c := 'n') rfl (by decide) m ('u' :: 'l' :: 'l' :: rest)).trans ?_
  simp [parseScalar, List.dropPrefix?]

theorem reads_bool (b : Bool) : Reads number (.bool b) := by
  intro n rest hn _
  obtain ⟨m, rfl⟩ := Nat.exists_eq_succ_of_ne_zero (Nat.ne_of_gt (Nat.zero_lt_of_lt hn))
  cases b with
  | true =>
      refine (parseValue_scalar (c := 't') rfl (by decide) m ('r' :: 'u' :: 'e' :: rest)).trans ?_
      simp [parseScalar, List.dropPrefix?]
  | false =>
      refine (parseValue_scalar (c := 'f') rfl (by decide) m
        ('a' :: 'l' :: 's' :: 'e' :: rest)).trans ?_
      simp [parseScalar, List.dropPrefix?]

theorem reads_num {text : String} (h : canonical number (.num text) = true) :
    Reads number (.num text) := by
  intro n rest hn hrest
  obtain ⟨m, rfl⟩ := Nat.exists_eq_succ_of_ne_zero (Nat.ne_of_gt (Nat.zero_lt_of_lt hn))
  simp only [canonical, Bool.and_eq_true, beq_iff_eq] at h
  obtain ⟨hliteral, hnumber⟩ := h
  have hall : ∀ c ∈ text.toList, isNumberChar c = true := by
    unfold isLiteral at hliteral
    rw [Bool.and_eq_true, List.all_eq_true] at hliteral
    exact hliteral.1
  have htake : (text.toList ++ rest).takeWhile isNumberChar = text.toList := by
    rw [List.takeWhile_append_of_pos hall]
    cases rest with
    | nil => simp
    | cons c rest =>
        rw [List.takeWhile_cons_of_neg (by simp [hrest c rfl]), List.append_nil]
  have hdrop : (text.toList ++ rest).dropWhile isNumberChar = rest := by
    rw [List.dropWhile_append_of_pos hall]
    cases rest with
    | nil => rfl
    | cons c rest => rw [List.dropWhile_cons_of_neg (by simp [hrest c rfl])]
  have hne : text.toList ≠ [] := by
    intro h
    rw [h] at hliteral
    cases hliteral
  obtain ⟨c, cs, hcs⟩ := List.exists_cons_of_ne_nil hne
  obtain ⟨hmin, hmax, hother⟩ := code_of_isNumberChar (hall c (by simp [hcs]))
  have hstart : isWhitespace c = false ∧ c.toNat ∉ [0x22, 0x5b, 0x7b] := by
    simp only [isWhitespace, List.mem_cons, List.not_mem_nil, or_false, decide_eq_false_iff_not]
      at hother ⊢
    omega
  have hword : c ≠ 'n' ∧ c ≠ 't' ∧ c ≠ 'f' := by
    refine ⟨?_, ?_, ?_⟩ <;> rintro rfl <;> revert hmax <;> decide
  have hscalar : parseScalar number (text.toList ++ rest) = some (.num text, rest) := by
    unfold parseScalar
    rw [htake, hdrop, if_pos hliteral, String.ofList_toList, hnumber, hcs]
    simp [List.dropPrefix?, hword]
  rw [stringify, ← hscalar, hcs]
  exact parseValue_scalar hstart.1 hstart.2 m (cs ++ rest)

theorem reads_str (s : String) : Reads number (.str s) := by
  intro n rest hn _
  obtain ⟨m, rfl⟩ := Nat.exists_eq_succ_of_ne_zero (Nat.ne_of_gt (Nat.zero_lt_of_lt hn))
  have hs : isWhitespace (Char.ofNat 0x22) = false := rfl
  have hc : (Char.ofNat 0x22).toNat = 0x22 := rfl
  have hlength : (s.toList.flatMap escape).length < m := by
    rw [stringify, ← String.length_toList, toList_quote] at hn
    rw [List.length_cons, List.length_append] at hn
    omega
  rw [stringify, toList_quote, List.cons_append, List.append_assoc, List.singleton_append]
  simp only [parseValue, token_cons hs, if_pos hc, parseString_flatMap _ _ hlength hc, bind,
    Option.bind, String.ofList_toList]
  rfl

theorem delimited_cons {c : Char} (h : isNumberChar c = false) (cs : List Char) :
    Delimited (c :: cs) := by
  rintro d ⟨⟩
  exact h

theorem parseElements_joined {elements : List Json} (hne : elements ≠ [])
    (h : ∀ value ∈ elements, Reads number value) {n : ℕ}
    (hn : (joined (stringifyElements elements)).length + 1 < n) (rest : List Char) :
    parseElements number n (joined (stringifyElements elements) ++ ']' :: rest) =
      some (elements, rest) := by
  induction elements generalizing n with
  | nil => exact absurd rfl hne
  | cons value elements ih =>
      obtain ⟨m, rfl⟩ := Nat.exists_eq_succ_of_ne_zero (Nat.ne_of_gt (Nat.zero_lt_of_lt hn))
      have hvalue := h value List.mem_cons_self
      cases elements with
      | nil =>
          simp only [stringifyElements, joined_singleton, String.length_toList] at hn ⊢
          have hcomma : token 0x2c (']' :: rest) = none := rfl
          have hclose : token 0x5d (']' :: rest) = some rest := rfl
          have hread : parseValue number m (value.stringify.toList ++ ']' :: rest) =
              some (value, ']' :: rest) := hvalue (by omega) (delimited_cons rfl rest)
          rw [parseElements]
          simp only [hread, bind, Option.bind, hcomma, hclose, pure]
      | cons next elements =>
          simp only [stringifyElements, joined_cons_cons, List.length_append, List.length_cons,
            String.length_toList] at hn ⊢
          have hcomma : ∀ cs, token 0x2c (',' :: cs) = some cs := fun _ => rfl
          have ih := ih (List.cons_ne_nil _ _)
            (fun other hother => h other (List.mem_cons_of_mem _ hother)) (n := m)
            (by simp only [stringifyElements]; omega)
          rw [stringifyElements] at ih
          have hread : ∀ cs, parseValue number m (value.stringify.toList ++ ',' :: cs) =
              some (value, ',' :: cs) := fun cs => hvalue (by omega) (delimited_cons rfl cs)
          rw [parseElements, List.append_assoc, List.cons_append]
          simp only [hread, bind, Option.bind, hcomma, ih, pure]

/-- The text of a member up to its value. -/
theorem toList_stringifyField (name : String) (value : Json) :
    (stringifyField (name, value)).toList = Char.ofNat 0x22 ::
      (name.toList.flatMap escape ++ Char.ofNat 0x22 :: ':' :: value.stringify.toList) := by
  simp only [stringifyField, String.toList_append, toList_quote]
  simp

theorem parseMembers_joined {members : List (String × Json)} (hne : members ≠ [])
    (h : ∀ member ∈ members, Reads number member.2) {n : ℕ}
    (hn : (joined (stringifyFields members)).length + 1 < n) {close : Char}
    (hclose : close.toNat = 0x7d) (rest : List Char) :
    parseMembers number n (joined (stringifyFields members) ++ close :: rest) =
      some (members, rest) := by
  have hmark : (Char.ofNat 0x22).toNat = 0x22 := rfl
  have hopen : ∀ cs, token 0x22 (Char.ofNat 0x22 :: cs) = some cs := fun _ => rfl
  have hcolon : ∀ cs, token 0x3a (':' :: cs) = some cs := fun _ => rfl
  induction members generalizing n with
  | nil => exact absurd rfl hne
  | cons member members ih =>
      obtain ⟨m, rfl⟩ := Nat.exists_eq_succ_of_ne_zero (Nat.ne_of_gt (Nat.zero_lt_of_lt hn))
      obtain ⟨name, value⟩ := member
      have hvalue : Reads number value := h _ List.mem_cons_self
      have hname : (name.toList.flatMap escape).length < m →
          ∀ cs, parseString m (name.toList.flatMap escape ++ Char.ofNat 0x22 :: cs) =
            some (name.toList, cs) := fun hm cs => parseString_flatMap _ cs hm hmark
      cases members with
      | nil =>
          simp only [stringifyFields, joined_singleton, toList_stringifyField, List.length_cons,
            List.length_append, String.length_toList] at hn ⊢
          have hclosed : token 0x2c (close :: rest) = none ∧
              token 0x7d (close :: rest) = some rest ∧ isNumberChar close = false := by
            have hclose' : close = Char.ofNat 0x7d := by rw [← hclose, Char.ofNat_toNat]
            subst hclose'
            exact ⟨rfl, rfl, rfl⟩
          have hread : parseValue number m (value.stringify.toList ++ close :: rest) =
              some (value, close :: rest) := hvalue (by omega) (delimited_cons hclosed.2.2 rest)
          rw [parseMembers, List.cons_append, hopen, List.append_assoc, List.cons_append,
            List.cons_append]
          simp only [bind, Option.bind, hname (by omega), hcolon, hread, hclosed.1, hclosed.2.1,
            pure, String.ofList_toList]
      | cons next members =>
          simp only [stringifyFields, joined_cons_cons, toList_stringifyField, List.length_cons,
            List.length_append, String.length_toList] at hn ⊢
          have hcomma : ∀ cs, token 0x2c (',' :: cs) = some cs := fun _ => rfl
          have ih := ih (List.cons_ne_nil _ _)
            (fun other hother => h other (List.mem_cons_of_mem _ hother)) (n := m)
            (by simp only [stringifyFields]; omega)
          rw [stringifyFields] at ih
          have hread : ∀ cs, parseValue number m (value.stringify.toList ++ ',' :: cs) =
              some (value, ',' :: cs) := fun cs => hvalue (by omega) (delimited_cons rfl cs)
          rw [parseMembers, List.append_assoc, List.cons_append, hopen, List.append_assoc,
            List.cons_append, List.cons_append, List.cons_append]
          simp only [bind, Option.bind, hname (by omega), hcolon, hread, hcomma, ih, pure,
            String.ofList_toList]

theorem exists_cons_stringify (value : Json) (h : canonical number value = true) :
    ∃ c cs, value.stringify.toList = c :: cs ∧ startsValue c = true := by
  cases value with
  | null => exact ⟨'n', _, rfl, rfl⟩
  | bool b =>
      cases b with
      | true => exact ⟨'t', _, rfl, rfl⟩
      | false => exact ⟨'f', _, rfl, rfl⟩
  | num text =>
      simp only [canonical, isLiteral, Bool.and_eq_true, List.all_eq_true] at h
      rw [stringify]
      cases htext : text.toList with
      | nil => rw [htext] at h; cases h.1.2
      | cons c cs =>
          refine ⟨c, cs, rfl, ?_⟩
          rw [startsValue, h.1.1 c (by simp [htext]), Bool.true_or]
  | str s => exact ⟨_, _, toList_quote s, rfl⟩
  | arr elements =>
      refine ⟨'[', joined (stringifyElements elements) ++ [']'], ?_, rfl⟩
      simp [stringify, joined]
  | obj fields =>
      refine ⟨Char.ofNat 0x7b, joined (stringifyFields fields) ++ [Char.ofNat 0x7d], ?_, rfl⟩
      simp only [stringify, String.toList_append, joined]
      rfl

theorem reads_arr {elements : List Json} (h : ∀ value ∈ elements, Reads number value)
    (hcanonical : ∀ value ∈ elements, canonical number value = true) :
    Reads number (.arr elements) := by
  intro n rest hn _
  obtain ⟨m, rfl⟩ := Nat.exists_eq_succ_of_ne_zero (Nat.ne_of_gt (Nat.zero_lt_of_lt hn))
  have htext : (Json.arr elements).stringify.toList ++ rest =
      '[' :: (joined (stringifyElements elements) ++ ']' :: rest) := by
    simp [stringify, joined]
  have hlength : (joined (stringifyElements elements)).length + 1 < m := by
    have := congrArg List.length htext
    simp only [List.length_append, List.length_cons, String.length_toList] at this
    omega
  have hother : ∀ cs, token 0x22 ('[' :: cs) = none ∧ token 0x5b ('[' :: cs) = some cs ∧
      token 0x7b ('[' :: cs) = none := fun _ => ⟨rfl, rfl, rfl⟩
  rw [htext, parseValue]
  simp only [(hother _).1, (hother _).2.1, (hother _).2.2]
  cases elements with
  | nil => rfl
  | cons value elements =>
      -- The first element begins with no closing bracket.
      obtain ⟨c, cs, hcs, hstart⟩ := exists_cons_stringify value
        (hcanonical value List.mem_cons_self)
      have hclose : ∀ after, token 0x5d
          (joined (stringifyElements (value :: elements)) ++ after) = none := by
        intro after
        obtain ⟨hwhite, hcode⟩ := code_of_startsValue hstart
        have hne : c.toNat ≠ 0x5d := fun e => hcode (by simp [e])
        cases elements with
        | nil =>
            rw [stringifyElements, stringifyElements, joined_singleton, hcs, List.cons_append,
              token_cons hwhite, if_neg hne]
        | cons next elements =>
            rw [stringifyElements, stringifyElements, joined_cons_cons, hcs, List.cons_append,
              List.cons_append, token_cons hwhite, if_neg hne]
      rw [hclose, parseElements_joined (List.cons_ne_nil _ _) h hlength rest]
      rfl

theorem reads_obj {fields : List (String × Json)} (h : ∀ field ∈ fields, Reads number field.2)
    (hordered : ordered (fields.map Prod.fst) = true) : Reads number (.obj fields) := by
  intro n rest hn _
  obtain ⟨m, rfl⟩ := Nat.exists_eq_succ_of_ne_zero (Nat.ne_of_gt (Nat.zero_lt_of_lt hn))
  have htext : (Json.obj fields).stringify.toList ++ rest =
      Char.ofNat 0x7b :: (joined (stringifyFields fields) ++ Char.ofNat 0x7d :: rest) := by
    simp only [stringify, String.toList_append, joined, List.append_assoc]
    rfl
  have hlength : (joined (stringifyFields fields)).length + 1 < m := by
    have := congrArg List.length htext
    simp only [List.length_append, List.length_cons, String.length_toList] at this
    omega
  have hother : ∀ cs, token 0x22 (Char.ofNat 0x7b :: cs) = none ∧
      token 0x5b (Char.ofNat 0x7b :: cs) = none ∧
      token 0x7b (Char.ofNat 0x7b :: cs) = some cs := fun _ => ⟨rfl, rfl, rfl⟩
  rw [htext, parseValue]
  simp only [(hother _).1, (hother _).2.1, (hother _).2.2]
  cases fields with
  | nil => rfl
  | cons field fields =>
      have hclose : ∀ after, token 0x7d
          (joined (stringifyFields (field :: fields)) ++ after) = none := by
        intro after
        obtain ⟨name, value⟩ := field
        cases fields with
        | nil =>
            rw [stringifyFields, stringifyFields, joined_singleton, toList_stringifyField]
            rfl
        | cons next fields =>
            rw [stringifyFields, stringifyFields, joined_cons_cons, toList_stringifyField]
            rfl
      rw [hclose, parseMembers_joined (List.cons_ne_nil _ _) h hlength rfl rest]
      simp only [bind, Option.bind, pure, ofMembers_of_ordered hordered]

/-! The induction is on the value, its elements and its members. -/

mutual

theorem reads_of_canonical :
    ∀ value : Json, canonical number value = true → Reads number value
  | .null, _ => reads_null
  | .bool b, _ => reads_bool b
  | .num _, h => reads_num h
  | .str s, _ => reads_str s
  | .arr elements, h =>
      reads_arr (fun value hv => (reads_of_canonicalElements elements h value hv).1)
        fun value hv => (reads_of_canonicalElements elements h value hv).2
  | .obj fields, h => by
      rw [canonical, Bool.and_eq_true] at h
      exact reads_obj (reads_of_canonicalFields fields h.2) h.1

theorem reads_of_canonicalElements : ∀ elements : List Json,
    canonicalElements number elements = true →
      ∀ value ∈ elements, Reads number value ∧ canonical number value = true
  | [], _ => by simp
  | first :: elements, h => by
      rw [canonicalElements, Bool.and_eq_true] at h
      have hfirst := reads_of_canonical first h.1
      have hrest := reads_of_canonicalElements elements h.2
      simpa using ⟨⟨hfirst, h.1⟩, hrest⟩

theorem reads_of_canonicalFields : ∀ fields : List (String × Json),
    canonicalFields number fields = true → ∀ field ∈ fields, Reads number field.2
  | [], _ => by simp
  | (name, value) :: fields, h => by
      rw [canonicalFields, canonicalField, Bool.and_eq_true] at h
      have hvalue := reads_of_canonical value h.1
      have hrest := reads_of_canonicalFields fields h.2
      exact List.forall_mem_cons.mpr ⟨hvalue, hrest⟩

end

/-- `JSON.parse(JSON.stringify(value))` is the value. -/
theorem parse_stringify {value : Json} (h : canonical number value = true) :
    parse number value.stringify = some value := by
  have hend : Delimited [] := by simp [Delimited]
  have hread := reads_of_canonical value h (Nat.lt_succ_self _) hend
  rw [List.append_nil] at hread
  rw [parse, hread]
  rfl

/-- Values with the same text are the same. -/
theorem eq_of_stringify_eq {value other : Json} (h : canonical number value = true)
    (hother : canonical number other = true) (heq : value.stringify = other.stringify) :
    value = other :=
  Option.some.inj ((parse_stringify h).symm.trans (heq ▸ parse_stringify hother))

/-! ## Objects -/

theorem object_cons (name : String) (value : Option Json) (fields : List (String × Option Json)) :
    object ((name, value) :: fields) =
      .obj (value.toList.map (Prod.mk name) ++ fields.filterMap fun field =>
        field.2.map (Prod.mk field.1)) := by
  cases value <;> rfl

theorem keys_object_sublist (fields : List (String × Option Json)) :
    ((fields.filterMap fun field => field.2.map (Prod.mk field.1)).map Prod.fst).Sublist
      (fields.map Prod.fst) := by
  induction fields with
  | nil => exact List.Sublist.slnil
  | cons field fields ih =>
      obtain ⟨name, value⟩ := field
      cases value with
      | none => exact ih.cons _
      | some value => exact ih.cons_cons _

theorem ordered_sublist {keys more : List String} (hkeys : keys.Sublist more)
    (h : ordered more = true) : ordered keys = true := by
  simp only [ordered, Bool.and_eq_true, decide_eq_true_eq] at h ⊢
  exact ⟨h.1.sublist hkeys, h.2.sublist (hkeys.map _)⟩

theorem canonicalElements_iff {elements : List Json} :
    canonicalElements number elements = true ↔
      ∀ value ∈ elements, canonical number value = true := by
  induction elements with
  | nil => simp [canonicalElements]
  | cons value elements ih => simp [canonicalElements, ih]

theorem canonicalFields_iff {fields : List (String × Json)} :
    canonicalFields number fields = true ↔
      ∀ field ∈ fields, canonical number field.2 = true := by
  induction fields with
  | nil => simp [canonicalFields]
  | cons field fields ih =>
      obtain ⟨name, value⟩ := field
      rw [canonicalFields, canonicalField, Bool.and_eq_true, ih, List.forall_mem_cons]

/-- An object literal is canonical if its fields are. -/
theorem canonical_object {fields : List (String × Option Json)} {keys : List String}
    (hkeys : fields.map Prod.fst = keys) (hordered : ordered keys = true)
    (hvalues : ∀ field ∈ fields, ∀ value ∈ field.2, canonical number value = true) :
    canonical number (object fields) = true := by
  rw [object, canonical, Bool.and_eq_true, canonicalFields_iff]
  subst keys
  refine ⟨ordered_sublist (keys_object_sublist fields) hordered, fun written hwritten => ?_⟩
  obtain ⟨field, hfield, heq⟩ := List.mem_filterMap.mp hwritten
  obtain ⟨value, hvalue, rfl⟩ := Option.map_eq_some_iff.mp heq
  exact hvalues field hfield value hvalue

/-- An object literal tells the values of its fields, also which are `undefined`. -/
theorem eq_of_object_eq {fields others : List (String × Option Json)}
    (h : object fields = object others) (hkeys : fields.map Prod.fst = others.map Prod.fst)
    (hnodup : (fields.map Prod.fst).Nodup) : fields = others := by
  induction fields generalizing others with
  | nil => exact (List.map_eq_nil_iff.mp hkeys.symm).symm
  | cons field fields ih =>
      obtain ⟨name, value⟩ := field
      obtain ⟨⟨name', other⟩, others, rfl, rfl, htail⟩ := List.map_eq_cons_iff.mp hkeys.symm
      rw [List.map_cons, List.nodup_cons] at hnodup
      have absent : ∀ rest : List (String × Option Json), rest.map Prod.fst = fields.map Prod.fst →
          ∀ value, (name', value) ∉ rest.filterMap fun field => field.2.map (Prod.mk field.1) := by
        intro rest hrest value hmem
        have hname := (keys_object_sublist rest).subset (List.mem_map_of_mem hmem)
        rw [hrest] at hname
        exact hnodup.1 hname
      rw [object_cons, object_cons, Json.obj.injEq] at h
      cases value with
      | none =>
          cases other with
          | none => rw [ih (congrArg Json.obj h) htail.symm hnodup.2]
          | some other =>
              have hmem := h ▸ List.mem_append_left _ (List.mem_singleton_self (name', other))
              exact absurd hmem (absent fields rfl other)
      | some value =>
          cases other with
          | none =>
              have hmem := h ▸ List.mem_append_left _ (List.mem_singleton_self (name', value))
              exact absurd hmem (absent others htail value)
          | some other =>
              obtain ⟨hvalue, hrest⟩ := List.cons.inj h
              rw [ih (congrArg Json.obj hrest) htail.symm hnodup.2, (Prod.mk.inj hvalue).2]

end RoundTrip

/-! ## Strings and natural numbers -/

section Natural

def string? : Json → Option String
  | .str s => some s
  | _ => none

@[simp] theorem string?_str (s : String) : string? (.str s) = some s := rfl

def natural (n : ℕ) : Json := .num (Nat.repr n)

/-- The number that a value is, if it is one in decimal digits. -/
def natural? : Json → Option ℕ
  | .num text =>
      if text.toList.all Char.isDigit then some (Nat.ofDigitChars 10 text.toList 0) else none
  | _ => none

@[simp] theorem natural?_natural (n : ℕ) : natural? (natural n) = some n := by
  have hdigits : (Nat.toDigits 10 n).all Char.isDigit = true := List.all_eq_true.mpr fun c hc =>
    Nat.isDigit_of_mem_toDigits (by decide) Nat.le.refl hc
  rw [natural, natural?, Nat.toList_repr, if_pos hdigits, Nat.ofDigitChars_ten_toDigits]

/-- A numeral starts with another digit than zero, if it is not zero. -/
theorem exists_cons_toDigits {n : ℕ} (hn : 0 < n) :
    ∃ d ds, Nat.toDigits 10 n = d :: ds ∧ d ≠ '0' := by
  induction n using Nat.strongRecOn with
  | ind n ih =>
      by_cases hlt : n < 10
      · have hdigit : ∀ m < 10, 0 < m → Nat.digitChar m ≠ '0' := by decide
        exact ⟨n.digitChar, [], Nat.toDigits_of_lt_base hlt, hdigit n hlt hn⟩
      · have hle : 10 ≤ n := Nat.le_of_not_lt hlt
        have hdiv : 0 < n / 10 := Nat.div_pos hle (by decide)
        obtain ⟨d, ds, htoDigits, hd⟩ := ih (n / 10) (Nat.div_lt_self hn (by decide)) hdiv
        refine ⟨d, ds ++ [(n % 10).digitChar], ?_, hd⟩
        rw [Nat.toDigits_of_base_le (by decide) hle, htoDigits, List.cons_append]

theorem integerPart_cons {d : Char} {ds : List Char} (hd : d ≠ '0')
    (hdigits : ∀ c ∈ d :: ds, c.isDigit = true) : integerPart (d :: ds) = some [] := by
  have hrest : ds.dropWhile Char.isDigit = [] := by
    rw [List.dropWhile_eq_nil_iff]
    exact fun c hc => hdigits c (List.mem_cons_of_mem d hc)
  unfold integerPart
  split
  · next heq => exact absurd (List.cons.inj heq).1 hd
  · rw [digits, if_pos (hdigits d List.mem_cons_self), hrest]

/-- Decimal digits are a number literal. -/
theorem isLiteral_repr (n : ℕ) : isLiteral (Nat.repr n).toList = true := by
  rw [Nat.toList_repr]
  rcases Nat.eq_zero_or_pos n with rfl | hn
  · decide
  · obtain ⟨d, ds, htoDigits, hd⟩ := exists_cons_toDigits hn
    have hdigits : ∀ c ∈ d :: ds, c.isDigit = true := fun c hc =>
      Nat.isDigit_of_mem_toDigits (by decide) Nat.le.refl (htoDigits ▸ hc)
    have hall : (d :: ds).all isNumberChar = true :=
      List.all_eq_true.mpr fun c hc => by simp [isNumberChar, hdigits c hc]
    rw [htoDigits, isLiteral, hall, integerPart_cons hd hdigits]
    · rfl
    · intro cs heq
      have hminus := hdigits '-' ((List.cons.inj heq).1 ▸ List.mem_cons_self)
      cases hminus

theorem canonical_natural {number : String → String} {n : ℕ}
    (h : number (Nat.repr n) = Nat.repr n) : canonical number (natural n) = true := by
  rw [natural, canonical, isLiteral_repr, h]
  simp

end Natural

end ContentPublishing.Json
