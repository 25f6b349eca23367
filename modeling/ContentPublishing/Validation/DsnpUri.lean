import ContentPublishing.Lib.BigInt
import ContentPublishing.Lib.Json
import ContentPublishing.Lib.Regex
import Mathlib.Tactic.Common

/-!
# DSNP user and content URIs

Both validators match the text with an expression whose protocol group takes as much
as it can, and test the groups. The grammar that they stand for has the protocol
`dsnp` and a user identifier that is a positive 64-bit number.
-/
namespace ContentPublishing.Validation
open Regex

/-! ## The validators -/

def maxU64 : ℤ := 18446744073709551615

/-- `/^(?<protocol>.*):\/\/(?<msaId>[\d]*)$/` -/
def userUriRegex : Regex Char :=
  .seq (.group "protocol" (.star (.one isDot)))
    (.seq (literal "://".toList) (.group "msaId" (.star (.one isDigit))))

/-- `/^(?<protocol>.*):\/\/(?<msaId>[\d]*)\/(?<contentHash>.*)$/` -/
def contentUriRegex : Regex Char :=
  .seq (.group "protocol" (.star (.one isDot)))
    (.seq (literal "://".toList)
      (.seq (.group "msaId" (.star (.one isDigit)))
        (.seq (literal "/".toList) (.group "contentHash" (.star (.one isDot))))))

/-- A group that took part in the match. -/
def groupOf (groups : List (String × List Char)) (name : String) : List Char :=
  (groups.lookup name).getD []

def validateMsaIdString (msaId : List Char) : Bool :=
  if "0".toList.isPrefixOf msaId then false
  else
    match BigInt.ofText (String.ofList msaId) with
    | none => false
    | some uid => if uid > maxU64 then false else true

def validateContentHash (_contentHash : List Char) : Bool := true

/-- The validator behind `IsDsnpUserURI`. -/
def isDsnpUserURI : Option Json → Bool
  | some (.str value) =>
      match exec userUriRegex value.toList with
      | none => false
      | some groups =>
          if groupOf groups "protocol" ≠ "dsnp".toList then false
          else validateMsaIdString (groupOf groups "msaId")
  | _ => false

/-- The validator behind `IsDsnpContentURI`. -/
def isDsnpContentURI : Option Json → Bool
  | some (.str value) =>
      match exec contentUriRegex value.toList with
      | none => false
      | some groups =>
          if groupOf groups "protocol" ≠ "dsnp".toList then false
          else if !validateMsaIdString (groupOf groups "msaId") then false
          else validateContentHash (groupOf groups "contentHash")
  | _ => false

/-! ## The grammar -/

/-- A decimal numeral without leading zero, of at most 64 bits. -/
structure Numeral (d : List Char) : Prop where
  nonempty : d ≠ []
  digits : ∀ c ∈ d, isDigit c = true
  leading : ¬ "0".toList <+: d
  bounded : Nat.ofDigitChars 10 d 0 ≤ 2 ^ 64 - 1

/-- A text on one line. -/
def OneLine (h : List Char) : Prop := ∀ c ∈ h, isDot c = true

def UserURI (s : List Char) : Prop := ∃ d, Numeral d ∧ s = "dsnp://".toList ++ d

def ContentURI (s : List Char) : Prop :=
  ∃ d h, Numeral d ∧ OneLine h ∧ s = "dsnp://".toList ++ d ++ "/".toList ++ h

/-- Both validators accept what the grammar does, and no value that is no text. -/
def Grammatical : Option Json → Prop
  | some (.str s) => (isDsnpUserURI (some (.str s)) = true ↔ UserURI s.toList) ∧
      (isDsnpContentURI (some (.str s)) = true ↔ ContentURI s.toList)
  | value => isDsnpUserURI value = false ∧ isDsnpContentURI value = false

/-- The text contains what can separate a protocol from a content hash. -/
def HasSeparator (h : List Char) : Prop :=
  ∃ v d h', (∀ c ∈ d, isDigit c = true) ∧ h = v ++ "://".toList ++ d ++ "/".toList ++ h'

/-! ## What the validators accept -/

section Numerals
variable {d : List Char}

/-- The digits of an accepted user identifier, which may be missing. -/
def MsaId (d : List Char) : Prop :=
  (∀ c ∈ d, isDigit c = true) ∧ ¬ "0".toList <+: d ∧ Nat.ofDigitChars 10 d 0 ≤ 2 ^ 64 - 1

theorem msaId_iff : MsaId d ↔ d = [] ∨ Numeral d := by
  constructor
  · rintro ⟨hdigits, hleading, hbounded⟩
    by_cases hd : d = []
    · exact .inl hd
    · exact .inr ⟨hd, hdigits, hleading, hbounded⟩
  · rintro (rfl | h)
    · exact ⟨fun _ hc => (by cases hc), by decide, by decide⟩
    · exact ⟨h.digits, h.leading, h.bounded⟩

theorem digitValue_of_isDigit {c : Char} (h : isDigit c = true) :
    BigInt.digitValue c = some (c.toNat - '0'.toNat) ∧ c.toNat - '0'.toNat < 10 := by
  simp only [isDigit, Bool.and_eq_true, decide_eq_true_eq] at h
  refine ⟨if_pos h, ?_⟩
  have hle : c.toNat ≤ '9'.toNat := h.2
  have hnine : '9'.toNat = 57 := rfl
  have hzero : '0'.toNat = 48 := rfl
  omega

theorem readDigits_eq (h : ∀ c ∈ d, isDigit c = true) (n : ℕ) :
    BigInt.readDigits 10 n d = some (Nat.ofDigitChars 10 d n) := by
  induction d generalizing n with
  | nil => simp [BigInt.readDigits]
  | cons c d ih =>
      obtain ⟨hc, hd⟩ := List.forall_mem_cons.mp h
      obtain ⟨hvalue, hlt⟩ := digitValue_of_isDigit hc
      rw [BigInt.readDigits, hvalue, Option.bind_eq_bind, Option.bind_some, if_pos hlt, ih hd,
        Nat.ofDigitChars_cons, Nat.mul_comm]

theorem isSpace_of_isDigit {c : Char} (h : isDigit c = true) : BigInt.isSpace c = false := by
  simp only [isDigit, Bool.and_eq_true, decide_eq_true_eq] at h
  have hlow : 48 ≤ c.toNat := h.1
  have hhigh : c.toNat ≤ 57 := h.2
  simp only [BigInt.isSpace, Bool.or_eq_false_iff, decide_eq_false_iff_not, List.mem_cons,
    List.not_mem_nil, or_false, Bool.and_eq_false_iff]
  omega

theorem trim_of_digits (h : ∀ c ∈ d, isDigit c = true) : BigInt.trim d = d := by
  have hdrop : ∀ {d : List Char}, (∀ c ∈ d, isDigit c = true) → d.dropWhile BigInt.isSpace = d := by
    intro d hd
    cases d with
    | nil => rfl
    | cons c d =>
        have hc := isSpace_of_isDigit (List.forall_mem_cons.mp hd).1
        rw [List.dropWhile_cons, hc]
        rfl
  have hreverse : ∀ c ∈ d.reverse, isDigit c = true := by simpa using h
  rw [BigInt.trim, hdrop h, hdrop hreverse, List.reverse_reverse]

/-- A text of digits is the number that it denotes. -/
theorem ofText_of_digits (h : ∀ c ∈ d, isDigit c = true) (hleading : ¬ "0".toList <+: d) :
    BigInt.ofText (String.ofList d) = some (Int.ofNat (Nat.ofDigitChars 10 d 0)) := by
  rw [BigInt.ofText, String.toList_ofList, trim_of_digits h]
  cases d with
  | nil => rfl
  | cons c d =>
      have hc := (List.forall_mem_cons.mp h).1
      have hzero : c ≠ '0' := by
        rintro rfl
        exact hleading ⟨d, rfl⟩
      have hminus : c ≠ '-' := by
        rintro rfl
        cases hc
      have hplus : c ≠ '+' := by
        rintro rfl
        cases hc
      have hdigits : BigInt.ofDigits 10 (c :: d) =
          some (Int.ofNat (Nat.ofDigitChars 10 (c :: d) 0)) := by
        simp only [BigInt.ofDigits, readDigits_eq h]
        rfl
      split <;> simp_all

theorem validateMsaIdString_iff (h : ∀ c ∈ d, isDigit c = true) :
    validateMsaIdString d = true ↔ MsaId d := by
  unfold validateMsaIdString
  by_cases hleading : "0".toList <+: d
  · rw [if_pos (List.isPrefixOf_iff_prefix.mpr hleading)]
    exact iff_of_false Bool.false_ne_true fun hd => hd.2.1 hleading
  · rw [if_neg (fun hp => hleading (List.isPrefixOf_iff_prefix.mp hp)), ofText_of_digits h hleading]
    have hmax : maxU64 = ((2 ^ 64 - 1 : ℕ) : ℤ) := by decide +kernel
    by_cases hlarge : Nat.ofDigitChars 10 d 0 ≤ 2 ^ 64 - 1
    · dsimp only
      rw [if_neg (by rw [hmax, Int.ofNat_eq_natCast, gt_iff_lt]; omega)]
      exact iff_of_true rfl ⟨h, hleading, hlarge⟩
    · dsimp only
      rw [if_pos (by rw [hmax, Int.ofNat_eq_natCast, gt_iff_lt]; omega)]
      exact iff_of_false Bool.false_ne_true fun hd => hlarge hd.2.2

end Numerals

section Accepted
variable {d h : List Char}

/-- `://` and what follows, in which there is no other colon. -/
theorem eq_nil_of_colon {v xs ys : List Char} (hcolon : ':' ∉ xs)
    (heq : v ++ ':' :: ys = "://".toList ++ xs) : v = [] := by
  cases v with
  | nil => rfl
  | cons x v =>
      have htail : v ++ ':' :: ys = "//".toList ++ xs := (List.cons.inj heq).2
      have hmem : ':' ∈ "//".toList ++ xs := htail ▸ List.mem_append_right _ List.mem_cons_self
      rcases List.mem_append.mp hmem with hslash | hxs
      · exact absurd hslash (by decide)
      · exact absurd hxs hcolon

theorem colon_not_mem (hd : ∀ c ∈ d, isDigit c = true) : ':' ∉ d :=
  fun hmem => absurd (hd _ hmem) (by decide)

theorem isDot_of_isDigit {c : Char} (hc : isDigit c = true) : isDot c = true := by
  simp only [isDigit, Bool.and_eq_true, decide_eq_true_eq] at hc
  have hlow : 48 ≤ c.toNat := hc.1
  have hhigh : c.toNat ≤ 57 := hc.2
  simp only [isDot, decide_eq_true_eq, List.mem_cons, List.not_mem_nil, or_false]
  omega

/-- The part of a user URI after the protocol. -/
theorem exec_userPart {tail : List (String × List Char)} {ys : List Char} :
    exec (.seq (literal "://".toList) (.group "msaId" (.star (.one isDigit)))) ys = some tail ↔
      ∃ d, (∀ c ∈ d, isDigit c = true) ∧ ys = "://".toList ++ d ∧ tail = [("msaId", d)] := by
  rw [exec_literal_seq_iff]
  refine exists_congr fun d => ?_
  rw [exec_group_star_iff, and_left_comm]

/-- The part of a content URI after the protocol. -/
theorem exec_contentPart {tail : List (String × List Char)} {ys : List Char} :
    exec (.seq (literal "://".toList) (.seq (.group "msaId" (.star (.one isDigit)))
        (.seq (literal "/".toList) (.group "contentHash" (.star (.one isDot)))))) ys = some tail ↔
      ∃ d h, (∀ c ∈ d, isDigit c = true) ∧ OneLine h ∧
        ys = "://".toList ++ d ++ "/".toList ++ h ∧ tail = [("msaId", d), ("contentHash", h)] := by
  simp only [exec_literal_seq_iff, exec_group_star_seq_iff, exec_group_star_iff]
  constructor
  · rintro ⟨_, rfl, d, _, _, rfl, hdigits, ⟨h, rfl, hdots, rfl⟩, rfl, -⟩
    exact ⟨d, h, hdigits, hdots, by simp, rfl⟩
  · rintro ⟨d, h, hdigits, hdots, rfl, rfl⟩
    refine ⟨d ++ ("/".toList ++ h), by simp, d, "/".toList ++ h, _, rfl, hdigits,
      ⟨h, rfl, hdots, rfl⟩, rfl, fun u zs hu huzs hudigits => ?_⟩
    -- more digits than these would begin with the slash
    cases u with
    | nil => exact absurd rfl hu
    | cons c u =>
        obtain ⟨rfl, -⟩ := List.cons.inj huzs
        exact absurd (List.forall_mem_cons.mp hudigits).1 (by decide)

theorem exec_userUriRegex {xs : List Char} {groups : List (String × List Char)} :
    exec userUriRegex xs = some groups ↔
      ∃ w d, OneLine w ∧ (∀ c ∈ d, isDigit c = true) ∧ xs = w ++ "://".toList ++ d ∧
        groups = [("protocol", w), ("msaId", d)] := by
  rw [userUriRegex, exec_group_star_seq_iff]
  constructor
  · rintro ⟨w, ys, tail, rfl, hdots, hpart, rfl, -⟩
    obtain ⟨d, hdigits, rfl, rfl⟩ := exec_userPart.mp hpart
    exact ⟨w, d, hdots, hdigits, by rw [List.append_assoc], rfl⟩
  · rintro ⟨w, d, hdots, hdigits, rfl, rfl⟩
    refine ⟨w, "://".toList ++ d, _, by rw [List.append_assoc], hdots,
      exec_userPart.mpr ⟨d, hdigits, rfl, rfl⟩, rfl, fun u zs hu huzs _ => ?_⟩
    refine Option.eq_none_iff_forall_ne_some.mpr fun tail hpart => ?_
    obtain ⟨e, -, rfl, -⟩ := exec_userPart.mp hpart
    exact hu (eq_nil_of_colon (colon_not_mem hdigits) huzs)

/-- Where a later part reads as `://`, digits, `/` and a text, the text after the first
slash has a separator. -/
theorem hasSeparator_iff_later {d h : List Char} (hdigits : ∀ c ∈ d, isDigit c = true) :
    HasSeparator h ↔ ∃ u e h', u ≠ [] ∧ (∀ c ∈ e, isDigit c = true) ∧
      "://".toList ++ d ++ "/".toList ++ h = u ++ ("://".toList ++ e ++ "/".toList ++ h') := by
  constructor
  · rintro ⟨v, e, h', hedigits, rfl⟩
    exact ⟨"://".toList ++ d ++ "/".toList ++ v, e, h', by simp, hedigits, by simp⟩
  · rintro ⟨u, e, h', hu, hedigits, heq⟩
    obtain ⟨v, -, rfl⟩ | ⟨v, hbefore, hlater⟩ := List.append_eq_append_iff.mp heq
    · exact ⟨v, e, h', hedigits, by simp only [List.append_assoc]⟩
    · cases v with
      | nil => exact ⟨[], e, h', hedigits, hlater.symm⟩
      | cons c v =>
          -- a colon before the first slash that follows the digits
          obtain ⟨rfl, -⟩ := List.cons.inj hlater
          rw [List.append_assoc] at hbefore
          refine absurd (eq_nil_of_colon ?_ hbefore.symm) hu
          exact List.not_mem_append (colon_not_mem hdigits) (by decide)

theorem oneLine_of_all {h : List Char} (hall : h.all isDot = true) : OneLine h :=
  List.all_eq_true.mp hall

theorem oneLine_contentPart {d h : List Char} (hdigits : ∀ c ∈ d, isDigit c = true)
    (hhash : OneLine h) : OneLine ("://".toList ++ d ++ "/".toList ++ h) := by
  have hd : OneLine d := fun c hc => isDot_of_isDigit (hdigits c hc)
  have hsep : OneLine "://".toList := oneLine_of_all rfl
  have hslash : OneLine "/".toList := oneLine_of_all rfl
  exact List.forall_mem_append.mpr
    ⟨List.forall_mem_append.mpr ⟨List.forall_mem_append.mpr ⟨hsep, hd⟩, hslash⟩, hhash⟩

theorem exec_contentUriRegex {xs : List Char} {groups : List (String × List Char)} :
    exec contentUriRegex xs = some groups ↔
      ∃ w d h, OneLine w ∧ (∀ c ∈ d, isDigit c = true) ∧ OneLine h ∧ ¬ HasSeparator h ∧
        xs = w ++ "://".toList ++ d ++ "/".toList ++ h ∧
        groups = [("protocol", w), ("msaId", d), ("contentHash", h)] := by
  rw [contentUriRegex, exec_group_star_seq_iff]
  constructor
  · rintro ⟨w, ys, tail, rfl, hdots, hpart, rfl, hlongest⟩
    obtain ⟨d, h, hdigits, hhash, rfl, rfl⟩ := exec_contentPart.mp hpart
    refine ⟨w, d, h, hdots, hdigits, hhash, fun hseparator => ?_, by simp only [List.append_assoc],
      rfl⟩
    obtain ⟨u, e, h', hu, hedigits, heq⟩ := (hasSeparator_iff_later hdigits).mp hseparator
    have hline : OneLine (u ++ ("://".toList ++ e ++ "/".toList ++ h')) :=
      heq ▸ oneLine_contentPart hdigits hhash
    obtain ⟨hudots, hrest⟩ := List.forall_mem_append.mp hline
    have hnone := hlongest u _ hu heq.symm hudots
    rw [exec_contentPart.mpr ⟨e, h', hedigits, (List.forall_mem_append.mp hrest).2, rfl, rfl⟩]
      at hnone
    cases hnone
  · rintro ⟨w, d, h, hdots, hdigits, hhash, hseparator, rfl, rfl⟩
    refine ⟨w, "://".toList ++ d ++ "/".toList ++ h, _, by simp only [List.append_assoc], hdots,
      exec_contentPart.mpr ⟨d, h, hdigits, hhash, rfl, rfl⟩, rfl, fun u zs hu huzs _ => ?_⟩
    refine Option.eq_none_iff_forall_ne_some.mpr fun tail hpart => ?_
    obtain ⟨e, h', hedigits, -, rfl, -⟩ := exec_contentPart.mp hpart
    exact hseparator ((hasSeparator_iff_later hdigits).mpr ⟨u, e, h', hu, hedigits, huzs.symm⟩)

theorem oneLine_dsnp : OneLine "dsnp".toList := oneLine_of_all rfl

/-- `IsDsnpUserURI` also accepts a URI without a user identifier. -/
theorem isDsnpUserURI_iff {s : String} : isDsnpUserURI (some (.str s)) = true ↔
    ∃ d, MsaId d ∧ s.toList = "dsnp://".toList ++ d := by
  have haccepts : ∀ w d, exec userUriRegex s.toList = some [("protocol", w), ("msaId", d)] →
      isDsnpUserURI (some (.str s)) =
        if w ≠ "dsnp".toList then false else validateMsaIdString d := by
    intro w d hexec
    simp only [isDsnpUserURI, hexec]
    rfl
  constructor
  · intro haccepted
    cases hexec : exec userUriRegex s.toList with
    | none =>
        simp only [isDsnpUserURI, hexec] at haccepted
        cases haccepted
    | some groups =>
        obtain ⟨w, d, hdots, hdigits, hs, rfl⟩ := exec_userUriRegex.mp hexec
        rw [haccepts w d hexec] at haccepted
        split at haccepted
        · cases haccepted
        · next hw =>
            obtain rfl := not_not.mp hw
            exact ⟨d, (validateMsaIdString_iff hdigits).mp haccepted, hs⟩
  · rintro ⟨d, hd, hs⟩
    have hexec := exec_userUriRegex.mpr ⟨"dsnp".toList, d, oneLine_dsnp, hd.1, hs, rfl⟩
    rw [haccepts _ d hexec, if_neg (not_not.mpr rfl)]
    exact (validateMsaIdString_iff hd.1).mpr hd

/-- `IsDsnpContentURI` also accepts a URI without a user identifier, and rejects one
whose content hash has a separator. -/
theorem isDsnpContentURI_iff {s : String} : isDsnpContentURI (some (.str s)) = true ↔
    ∃ d h, MsaId d ∧ OneLine h ∧ ¬ HasSeparator h ∧
      s.toList = "dsnp://".toList ++ d ++ "/".toList ++ h := by
  have haccepts : ∀ w d h, exec contentUriRegex s.toList =
      some [("protocol", w), ("msaId", d), ("contentHash", h)] →
      isDsnpContentURI (some (.str s)) =
        if w ≠ "dsnp".toList then false else if !validateMsaIdString d then false else true := by
    intro w d h hexec
    simp only [isDsnpContentURI, hexec]
    rfl
  constructor
  · intro haccepted
    cases hexec : exec contentUriRegex s.toList with
    | none =>
        simp only [isDsnpContentURI, hexec] at haccepted
        cases haccepted
    | some groups =>
        obtain ⟨w, d, h, hdots, hdigits, hhash, hseparator, hs, rfl⟩ :=
          exec_contentUriRegex.mp hexec
        rw [haccepts w d h hexec] at haccepted
        split at haccepted
        · cases haccepted
        · next hw =>
            obtain rfl := not_not.mp hw
            refine ⟨d, h, (validateMsaIdString_iff hdigits).mp ?_, hhash, hseparator, hs⟩
            simpa using haccepted
  · rintro ⟨d, h, hd, hhash, hseparator, hs⟩
    have hexec := exec_contentUriRegex.mpr
      ⟨"dsnp".toList, d, h, oneLine_dsnp, hd.1, hhash, hseparator, hs, rfl⟩
    rw [haccepts _ d h hexec, if_neg (not_not.mpr rfl), (validateMsaIdString_iff hd.1).mpr hd]
    rfl

end Accepted

/-! ## Where the validators agree with the grammar -/

/-- A URI without a user identifier, or one whose content hash has a separator. -/
@[mk_iff]
inductive Misread : List Char → Prop
  | noUser : Misread "dsnp://".toList
  | noContentUser {h : List Char} (line : OneLine h) (plain : ¬ HasSeparator h) :
      Misread ("dsnp:///".toList ++ h)
  | separated {d h : List Char} (numeral : Numeral d) (line : OneLine h)
      (separator : HasSeparator h) : Misread ("dsnp://".toList ++ d ++ "/".toList ++ h)

section Agreement
variable {d d' h h' : List Char}

/-- A content URI can be cut in one way only. -/
theorem contentURI_inj (hd : ∀ c ∈ d, isDigit c = true) (hd' : ∀ c ∈ d', isDigit c = true)
    (heq : "dsnp://".toList ++ d ++ "/".toList ++ h = "dsnp://".toList ++ d' ++ "/".toList ++ h') :
    d = d' ∧ h = h' := by
  simp only [List.append_assoc] at heq
  have hcut : d ++ '/' :: h = d' ++ '/' :: h' := List.append_cancel_left heq
  have hstop : ∀ h : List Char, ('/' :: h).takeWhile isDigit = [] := fun _ => rfl
  have hdigits := congrArg (List.takeWhile isDigit) hcut
  rw [List.takeWhile_append_of_pos hd, List.takeWhile_append_of_pos hd', hstop, hstop,
    List.append_nil, List.append_nil] at hdigits
  subst d'
  exact ⟨rfl, (List.cons.inj (List.append_cancel_left hcut)).2⟩

theorem userURI_iff {s : String} : (isDsnpUserURI (some (.str s)) = true ↔ UserURI s.toList) ↔
    s.toList ≠ "dsnp://".toList := by
  rw [isDsnpUserURI_iff]
  constructor
  · intro hiff hs
    obtain ⟨d, hd, heq⟩ := hiff.mp ⟨[], msaId_iff.mpr (.inl rfl), hs⟩
    rw [hs] at heq
    exact hd.nonempty (List.append_cancel_left (heq.symm.trans (List.append_nil _).symm))
  · intro hs
    constructor
    · rintro ⟨d, hd, heq⟩
      rcases msaId_iff.mp hd with rfl | hd
      · exact absurd heq hs
      · exact ⟨d, hd, heq⟩
    · rintro ⟨d, hd, heq⟩
      exact ⟨d, msaId_iff.mpr (.inr hd), heq⟩

theorem contentURI_iff {s : String} :
    (isDsnpContentURI (some (.str s)) = true ↔ ContentURI s.toList) ↔
      (∀ h, OneLine h → ¬ HasSeparator h → s.toList ≠ "dsnp:///".toList ++ h) ∧
        ∀ d h, Numeral d → OneLine h → HasSeparator h →
          s.toList ≠ "dsnp://".toList ++ d ++ "/".toList ++ h := by
  have hnil : ∀ c ∈ ([] : List Char), isDigit c = true := fun c hc => (by cases hc)
  rw [isDsnpContentURI_iff]
  constructor
  · intro hiff
    refine ⟨fun h hh hplain hs => ?_, fun d h hd hh hseparator hs => ?_⟩
    · obtain ⟨d, h', hd, -, heq⟩ := hiff.mp ⟨[], h, msaId_iff.mpr (.inl rfl), hh, hplain, hs⟩
      exact hd.nonempty (contentURI_inj hd.digits hnil (heq.symm.trans hs)).1
    · obtain ⟨d', h', hd', -, hplain, heq⟩ := hiff.mpr ⟨d, h, hd, hh, hs⟩
      obtain ⟨-, rfl⟩ := contentURI_inj hd.digits hd'.1 (hs.symm.trans heq)
      exact hplain hseparator
  · rintro ⟨hnoUser, hseparated⟩
    constructor
    · rintro ⟨d, h, hd, hh, hplain, heq⟩
      rcases msaId_iff.mp hd with rfl | hd
      · exact absurd heq (hnoUser h hh hplain)
      · exact ⟨d, h, hd, hh, heq⟩
    · rintro ⟨d, h, hd, hh, heq⟩
      exact ⟨d, h, msaId_iff.mpr (.inr hd), hh, fun hs => hseparated d h hd hh hs heq, heq⟩

end Agreement

/-- The validators accept what the grammar does, except for a URI without user
identifier, which they accept, and a content hash with a separator, which they reject. -/
theorem grammatical_iff (value : Option Json) :
    Grammatical value ↔ ∀ s, value = some (.str s) → ¬ Misread s.toList := by
  cases value with
  | none => exact iff_of_true ⟨rfl, rfl⟩ (by simp)
  | some value =>
      cases value with
      | str s =>
          have hstring : Grammatical (some (.str s)) ↔ ¬ Misread s.toList := by
            rw [Grammatical, userURI_iff, contentURI_iff, misread_iff]
            push Not
            rfl
          rw [hstring]
          simp
      | _ => exact iff_of_true ⟨rfl, rfl⟩ (by simp)

/-- Both validators fail the grammar. -/
theorem not_grammatical_noUser : ¬ Grammatical (some (.str "dsnp://")) ∧
    ¬ Grammatical (some (.str "dsnp://1/a://2/b")) := by
  constructor
  · intro h
    exact userURI_iff.mp h.1 rfl
  · intro h
    refine (contentURI_iff.mp h.2).2 ['1'] "a://2/b".toList ?_ ?_ ?_ rfl
    · exact ⟨by decide, List.all_eq_true.mp rfl, by decide, by decide⟩
    · exact oneLine_of_all rfl
    · exact ⟨['a'], ['2'], ['b'], List.all_eq_true.mp rfl, rfl⟩

end ContentPublishing.Validation
