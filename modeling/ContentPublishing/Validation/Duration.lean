import ContentPublishing.Lib.Regex
import Mathlib.Tactic.Common

/-!
# Durations

The pattern repeats the whole sequence of components. What it matches are therefore
sequences of blocks, each with any of the components in the order of a duration. A
duration is one block that names something, also after a `T`.
-/
namespace ContentPublishing.Validation
open Regex

/-! ## The pattern -/

/-- `([0-9]+Y)?` and the like. -/
def componentRegex (designator : Char) : Regex Char :=
  .opt (.seq (.plus (.one isDigit)) (literal [designator]))

/-- `([0-9]+(\.[0-9]+)?S)?` -/
def secondsRegex : Regex Char :=
  .opt (.seq (.plus (.one isDigit))
    (.seq (.opt (.seq (literal ".".toList) (.plus (.one isDigit)))) (literal "S".toList)))

/-- `(T([0-9]+H)?([0-9]+M)?([0-9]+(\.[0-9]+)?S)?)?` -/
def timeRegex : Regex Char :=
  .opt (.seq (literal "T".toList)
    (.seq (componentRegex 'H') (.seq (componentRegex 'M') secondsRegex)))

/-- What `DURATION_REGEX` repeats. -/
def blockRegex : Regex Char :=
  .seq (componentRegex 'Y') (.seq (componentRegex 'M') (.seq (componentRegex 'D') timeRegex))

/-- `/^-?P(...)+$/` -/
def durationRegex : Regex Char :=
  .seq (.opt (literal "-".toList)) (.seq (literal "P".toList) (.plus blockRegex))

/-- `Matches(DURATION_REGEX)` for a text. -/
def matchesDuration (s : String) : Bool := test durationRegex s.toList

/-! ## Durations -/

/-- A non-empty text of digits. -/
structure Digits where
  text : List Char
  nonempty : text ≠ []
  digits : ∀ c ∈ text, isDigit c = true

/-- A number with its designator. -/
def Digits.designated (c : Char) (d : Digits) : List Char := d.text ++ [c]

structure Seconds where
  whole : Digits
  fraction : Option Digits

def Seconds.text (s : Seconds) : List Char :=
  s.whole.text ++ (s.fraction.elim [] (fun f => ".".toList ++ f.text) ++ "S".toList)

/-- The components after a `T`. -/
structure Time where
  hours : Option Digits
  minutes : Option Digits
  seconds : Option Seconds

def Time.text (t : Time) : List Char :=
  t.hours.elim [] (Digits.designated 'H') ++
    (t.minutes.elim [] (Digits.designated 'M') ++ t.seconds.elim [] Seconds.text)

/-- Each component at most once, in their order. -/
structure Block where
  years : Option Digits
  months : Option Digits
  days : Option Digits
  time : Option Time

namespace Block
variable (b : Block)

def text : List Char :=
  b.years.elim [] (Digits.designated 'Y') ++ (b.months.elim [] (Digits.designated 'M') ++
    (b.days.elim [] (Digits.designated 'D') ++
      b.time.elim [] fun t => "T".toList ++ t.text))

/-- There is a component, and there is one after a `T`. -/
structure Named : Prop where
  overall : b.years.isSome ∨ b.months.isSome ∨ b.days.isSome ∨ b.time.isSome
  afterT : ∀ t ∈ b.time, t.hours.isSome ∨ t.minutes.isSome ∨ t.seconds.isSome

end Block

/-- An optional sign and the `P`. -/
def start (negative : Bool) : List Char := (if negative then "-".toList else []) ++ "P".toList

/-- A duration as XML Schema writes it. -/
def IsDuration (w : List Char) : Prop :=
  ∃ negative b, Block.Named b ∧ w = start negative ++ b.text

/-! ## What the pattern matches -/

theorem spells_digits : Spells (.plus (.one isDigit)) Digits.text := by
  intro w
  rw [mem_language_plus_one]
  constructor
  · rintro ⟨hne, hall⟩
    exact ⟨⟨w, hne, hall⟩, rfl⟩
  · rintro ⟨d, rfl⟩
    exact ⟨d.nonempty, d.digits⟩

theorem spells_component (c : Char) : Spells (componentRegex c) fun o : Option Digits =>
    o.elim [] (Digits.designated c) := by
  refine Spells.opt ?_
  exact (spells_digits.seq (spells_literal [c])).ofSurjective (f := fun d => (d, ()))
    fun p => ⟨p.1, rfl⟩

theorem spells_seconds : Spells secondsRegex fun o : Option Seconds => o.elim [] Seconds.text := by
  refine Spells.opt ?_
  have hfraction := ((spells_literal ".".toList).seq spells_digits).ofSurjective
    (f := fun d => ((), d)) fun p => ⟨p.2, rfl⟩
  exact (spells_digits.seq (hfraction.opt.seq (spells_literal "S".toList))).ofSurjective
    (f := fun s : Seconds => (s.whole, (s.fraction, ()))) fun p => ⟨⟨p.1, p.2.1⟩, rfl⟩

theorem spells_time : Spells timeRegex fun o : Option Time =>
    o.elim [] fun t => "T".toList ++ t.text := by
  refine Spells.opt ?_
  have hcomponents := (spells_component 'H').seq ((spells_component 'M').seq spells_seconds)
  exact ((spells_literal "T".toList).seq hcomponents).ofSurjective
    (f := fun t : Time => ((), (t.hours, (t.minutes, t.seconds))))
    fun p => ⟨⟨p.2.1, p.2.2.1, p.2.2.2⟩, rfl⟩

theorem spells_block : Spells blockRegex Block.text :=
  ((spells_component 'Y').seq ((spells_component 'M').seq
    ((spells_component 'D').seq spells_time))).ofSurjective
      (f := fun b : Block => (b.years, (b.months, (b.days, b.time))))
      fun p => ⟨⟨p.1, p.2.1, p.2.2.1, p.2.2.2⟩, rfl⟩

/-- The texts of some blocks, one after the other. -/
def IsBlocks (w : List Char) : Prop := ∃ bs : List Block, bs ≠ [] ∧ w = (bs.map Block.text).flatten

theorem matchesDuration_iff (s : String) : matchesDuration s = true ↔
    ∃ negative w, IsBlocks w ∧ s.toList = start negative ++ w := by
  rw [matchesDuration, test_iff, durationRegex]
  refine (((spells_literal "-".toList).opt).seq
    ((spells_literal "P".toList).seq spells_block.plus) s.toList).trans ?_
  constructor
  · rintro ⟨⟨sign, _, b, bs⟩, hs⟩
    refine ⟨sign.isSome, ((b :: bs).map Block.text).flatten, ⟨b :: bs, by simp, rfl⟩, ?_⟩
    rw [← hs, List.map_cons, List.flatten_cons]
    cases sign <;> simp [start]
  · rintro ⟨negative, w, ⟨bs, hbs, rfl⟩, hs⟩
    obtain ⟨b, bs, rfl⟩ := List.exists_cons_of_ne_nil hbs
    refine ⟨(if negative then some () else none, (), b, bs), ?_⟩
    rw [hs, List.map_cons, List.flatten_cons]
    cases negative <;> simp [start]

/-! ## The order of the components -/

/-- The designators of a text, `T` included. -/
def designators (w : List Char) : List Char := w.filter fun c => !(isDigit c || c == '.')

/-- The place of a designator in a duration; an `M` after a `T` stands for minutes. -/
def position (afterT : Bool) : Char → ℕ
  | 'Y' => 0
  | 'M' => if afterT then 5 else 1
  | 'D' => 2
  | 'T' => 3
  | 'H' => 4
  | _ => 6

def positions : Bool → List Char → List ℕ
  | _, [] => []
  | afterT, c :: cs => position afterT c :: positions (afterT || c == 'T') cs

/-- Every component comes after the one before. -/
def Ascending (w : List Char) : Prop := (positions false (designators w)).Pairwise (· < ·)

/-- Something is named, also after a `T`, and no component is repeated or too late. -/
structure InOrder (w : List Char) : Prop where
  named : designators w ≠ []
  afterT : (designators w).getLast? ≠ some 'T'
  ascending : Ascending w

section Designators
variable {u v w : List Char}

@[simp] theorem designators_append (u v : List Char) :
    designators (u ++ v) = designators u ++ designators v := List.filter_append ..

@[simp] theorem Digits.designators_text (d : Digits) : designators d.text = [] := by
  rw [designators, List.filter_eq_nil_iff]
  intro c hc
  simp [d.digits c hc]

/-- The list of one element if there is a component. -/
def mark {X E : Type} (o : Option X) (e : E) : List E := (o.map fun _ => e).toList

theorem designators_component {c : Char} (hc : isDigit c = false) (hdot : (c == '.') = false)
    (o : Option Digits) : designators (o.elim [] (Digits.designated c)) = mark o c := by
  cases o with
  | none => rfl
  | some d =>
      have hlast : designators [c] = [c] := by simp [designators, hc, hdot]
      rw [Option.elim_some, Digits.designated, designators_append, Digits.designators_text, hlast]
      rfl

theorem designators_seconds (o : Option Seconds) :
    designators (o.elim [] Seconds.text) = mark o 'S' := by
  cases o with
  | none => rfl
  | some s =>
      have hfraction : designators (s.fraction.elim [] fun f => ".".toList ++ f.text) = [] := by
        cases s.fraction with
        | none => rfl
        | some f =>
            rw [Option.elim_some, designators_append, Digits.designators_text]
            rfl
      rw [Option.elim_some, Seconds.text, designators_append, designators_append, hfraction,
        Digits.designators_text]
      rfl

theorem designators_time (t : Time) :
    designators t.text = mark t.hours 'H' ++ (mark t.minutes 'M' ++ mark t.seconds 'S') := by
  rw [Time.text, designators_append, designators_append, designators_seconds,
    designators_component rfl rfl, designators_component rfl rfl]

theorem designators_block (b : Block) : designators b.text =
    mark b.years 'Y' ++ (mark b.months 'M' ++ (mark b.days 'D' ++
      b.time.elim [] fun t => 'T' :: designators t.text)) := by
  have htime : designators (b.time.elim [] fun t => "T".toList ++ t.text) =
      b.time.elim [] fun t => 'T' :: designators t.text := by
    cases b.time with
    | none => rfl
    | some t =>
        rw [Option.elim_some, designators_append]
        rfl
  simp only [Block.text, designators_append, htime,
    designators_component (c := 'Y') rfl rfl, designators_component (c := 'M') rfl rfl,
    designators_component (c := 'D') rfl rfl]

theorem positions_append (afterT : Bool) (u v : List Char) :
    positions afterT (u ++ v) = positions afterT u ++ positions (afterT || u.contains 'T') v := by
  induction u generalizing afterT with
  | nil => simp [positions]
  | cons c u ih =>
      have hflag : (afterT || c == 'T' || u.contains 'T') =
          (afterT || (c :: u).contains 'T') := by
        rw [List.contains_cons, Bool.or_assoc, Bool.beq_comm]
      rw [List.cons_append, positions, ih, hflag]
      rfl

theorem positions_block (b : Block) (afterT : Bool) : positions afterT (designators b.text) =
    mark b.years 0 ++ (mark b.months (position afterT 'M') ++ (mark b.days 2 ++
      b.time.elim [] fun t =>
        3 :: (mark t.hours 4 ++ (mark t.minutes 5 ++ mark t.seconds 6)))) := by
  obtain ⟨y, m, d, t⟩ := b
  have hmark : ∀ {X : Type} (o : Option X) (afterT : Bool) (c : Char), c ≠ 'T' → ∀ v,
      positions afterT (mark o c ++ v) = mark o (position afterT c) ++ positions afterT v := by
    intro X o afterT c hc v
    cases o with
    | none => rfl
    | some x =>
        have hflag : (afterT || c == 'T') = afterT := by simp [hc]
        simp [mark, positions, hflag]
  have hlast : ∀ {X : Type} (o : Option X), positions true (mark o 'S') = mark o 6 := by
    intro X o
    cases o <;> rfl
  rw [designators_block, hmark _ _ _ (by decide), hmark _ _ _ (by decide),
    hmark _ _ _ (by decide)]
  cases t with
  | none => rfl
  | some t =>
      have hflag : (afterT || 'T' == 'T') = true := Bool.or_true _
      rw [Option.elim_some, Option.elim_some, positions, hflag, designators_time,
        hmark _ _ _ (by decide), hmark _ _ _ (by decide), hlast]
      rfl

@[simp] theorem mem_mark {X E : Type} {o : Option X} {e x : E} :
    x ∈ mark o e ↔ o.isSome ∧ x = e := by
  cases o <;> simp [mark]

/-- The places of two blocks, one after the other. -/
theorem lt_of_ascending {a b : Block} (h : Ascending (a.text ++ b.text)) :
    ∀ i ∈ positions false (designators a.text),
      ∀ j ∈ positions a.time.isSome (designators b.text), i < j := by
  have hflag : (designators a.text).contains 'T' = a.time.isSome := by
    rw [designators_block]
    cases a.time <;> simp [List.contains_eq_mem]
  rw [Ascending, designators_append, positions_append, hflag, Bool.false_or,
    List.pairwise_append] at h
  exact h.2.2

/-- If all of some places are before others, a component that would be too late is not
there. -/
theorem eq_none_of_late {X : Type} {is js : List ℕ} (hlt : ∀ i ∈ is, ∀ j ∈ js, i < j)
    {o : Option X} {i j : ℕ} (hi : o.isSome → i ∈ is) (hj : j ∈ js) (hle : j ≤ i) : o = none := by
  cases o with
  | none => rfl
  | some x => exact absurd (hlt i (hi rfl) j hj) (not_lt.mpr hle)

theorem eq_none_of_early {X : Type} {is js : List ℕ} (hlt : ∀ i ∈ is, ∀ j ∈ js, i < j)
    {o : Option X} {i j : ℕ} (hi : i ∈ is) (hj : o.isSome → j ∈ js) (hle : j ≤ i) : o = none := by
  cases o with
  | none => rfl
  | some x => exact absurd (hlt i hi j (hj rfl)) (not_lt.mpr hle)

end Designators

namespace Block
variable {a b : Block}

/-- Years, months and days that come before a block may be put into it. -/
theorem exists_of_ascending_date (ha : a.time = none) (h : Ascending (a.text ++ b.text)) :
    ∃ c : Block, c.text = a.text ++ b.text := by
  obtain ⟨y, m, d, t⟩ := a
  obtain ⟨y', m', d', t'⟩ := b
  obtain rfl : t = none := ha
  have hmonths : position false 'M' = 1 := rfl
  have hlt := lt_of_ascending h
  simp only [positions_block, hmonths, Option.isSome_none, Option.elim_none,
    List.append_nil] at hlt
  refine ⟨⟨y <|> y', m <|> m', d <|> d', t'⟩, ?_⟩
  cases y' with
  | some y' =>
      have hyears : 0 ∈ mark (some y') 0 := by simp
      obtain rfl : y = none :=
        eq_none_of_late hlt (i := 0) (by simp) (List.mem_append_left _ hyears) le_rfl
      obtain rfl : m = none :=
        eq_none_of_late hlt (i := 1) (by simp) (List.mem_append_left _ hyears) (by decide)
      obtain rfl : d = none :=
        eq_none_of_late hlt (i := 2) (by simp) (List.mem_append_left _ hyears) (by decide)
      rfl
  | none =>
      cases m' with
      | some m' =>
          obtain rfl : m = none := eq_none_of_late hlt (i := 1) (j := 1) (by simp) (by simp) le_rfl
          obtain rfl : d = none := eq_none_of_late hlt (i := 2) (j := 1) (by simp) (by simp)
            (by decide)
          cases y <;> simp [text]
      | none =>
          cases d' with
          | some d' =>
              obtain rfl : d = none := eq_none_of_late hlt (i := 2) (j := 2) (by simp) (by simp)
                le_rfl
              cases y <;> cases m <;> simp [text]
          | none => cases y <;> cases m <;> cases d <;> simp [text]

/-- After a `T` a block can add minutes at most. -/
theorem exists_of_ascending_time {t : Time} (ha : a.time = some t)
    (h : Ascending (a.text ++ b.text)) : ∃ c : Block, c.text = a.text ++ b.text := by
  obtain ⟨y, m, d, t'⟩ := a
  obtain rfl : t' = some t := ha
  obtain ⟨y', m', d', t'⟩ := b
  have hmonths : position false 'M' = 1 := rfl
  have hminutes : position true 'M' = 5 := rfl
  have hlt := lt_of_ascending h
  simp only [positions_block, hmonths, hminutes, Option.isSome_some, Option.elim_some] at hlt
  obtain rfl : y' = none :=
    eq_none_of_early hlt (i := 3) (j := 0) (by simp) (fun hy => by simp [hy]) (by decide)
  obtain rfl : d' = none :=
    eq_none_of_early hlt (i := 3) (j := 2) (by simp) (fun hd => by simp [hd]) (by decide)
  obtain rfl : t' = none := by
    refine eq_none_of_early hlt (i := 3) (j := 3) (by simp) (fun ht => ?_) le_rfl
    obtain ⟨t', rfl⟩ := Option.isSome_iff_exists.mp ht
    simp
  cases m' with
  | none => exact ⟨_, (List.append_nil _).symm⟩
  | some m' =>
      obtain ⟨hours, minutes, seconds⟩ := t
      obtain rfl : minutes = none :=
        eq_none_of_late hlt (i := 5) (j := 5) (by simp) (by simp) le_rfl
      obtain rfl : seconds = none := eq_none_of_late hlt (i := 6) (j := 5) (by simp) (by simp)
        (by decide)
      exact ⟨⟨y, m, d, some ⟨hours, some m', none⟩⟩, by simp [text, Time.text]⟩

/-- Two blocks in ascending order are one. -/
theorem exists_of_ascending (h : Ascending (a.text ++ b.text)) :
    ∃ c : Block, c.text = a.text ++ b.text := by
  cases ht : a.time with
  | none => exact exists_of_ascending_date ht h
  | some t => exact exists_of_ascending_time ht h

theorem exists_flatten_of_ascending (bs : List Block)
    (h : Ascending (a.text ++ (bs.map text).flatten)) :
    ∃ c : Block, c.text = a.text ++ (bs.map text).flatten := by
  induction bs generalizing a with
  | nil => exact ⟨a, by simp⟩
  | cons b bs ih =>
      rw [List.map_cons, List.flatten_cons, ← List.append_assoc] at h ⊢
      have hfirst : Ascending (a.text ++ b.text) := by
        rw [Ascending, designators_append, positions_append] at h
        exact (List.pairwise_append.mp h).1
      obtain ⟨c, hc⟩ := exists_of_ascending hfirst
      rw [← hc] at h ⊢
      exact ih h

theorem mark_sublist {X E : Type} (o : Option X) (e : E) : List.Sublist (mark o e) [e] := by
  cases o with
  | none => exact List.nil_sublist _
  | some x => exact List.Sublist.refl _

/-- A block has its components in order. -/
theorem ascending_text (b : Block) : Ascending b.text := by
  have htime : List.Sublist (b.time.elim [] fun t =>
      3 :: (mark t.hours 4 ++ (mark t.minutes 5 ++ mark t.seconds 6))) [3, 4, 5, 6] := by
    cases b.time with
    | none => exact List.nil_sublist _
    | some t =>
        exact ((mark_sublist t.hours 4).append
          ((mark_sublist t.minutes 5).append (mark_sublist t.seconds 6))).cons_cons 3
  have hall : List.Sublist (positions false (designators b.text)) [0, 1, 2, 3, 4, 5, 6] := by
    rw [positions_block]
    exact (mark_sublist b.years 0).append
      ((mark_sublist b.months 1).append ((mark_sublist b.days 2).append htime))
  exact List.Pairwise.sublist hall (by decide)

theorem named_iff (b : Block) : b.Named ↔ InOrder b.text := by
  have hoverall : designators b.text ≠ [] ↔
      b.years.isSome ∨ b.months.isSome ∨ b.days.isSome ∨ b.time.isSome := by
    obtain ⟨y, m, d, t⟩ := b
    rw [designators_block]
    cases y <;> cases m <;> cases d <;> cases t <;> simp [mark]
  have hafterT : (designators b.text).getLast? ≠ some 'T' ↔
      ∀ t ∈ b.time, t.hours.isSome ∨ t.minutes.isSome ∨ t.seconds.isSome := by
    obtain ⟨y, m, d, t⟩ := b
    rw [designators_block]
    cases t with
    | none =>
        refine iff_of_true (fun hlast => ?_) (by simp)
        have hmem := List.mem_of_getLast? hlast
        simp at hmem
    | some t =>
        obtain ⟨hours, minutes, seconds⟩ := t
        rw [Option.elim_some, designators_time]
        cases hours <;> cases minutes <;> cases seconds <;> simp [mark, List.getLast?_append]
  exact ⟨fun h => ⟨hoverall.mpr h.overall, hafterT.mpr h.afterT, b.ascending_text⟩,
    fun h => ⟨hoverall.mp h.named, hafterT.mp h.afterT⟩⟩

end Block

theorem start_inj {n n' : Bool} {u v : List Char} (h : start n ++ u = start n' ++ v) : u = v := by
  cases n <;> cases n' <;> simp_all [start]

/-- The pattern and the grammar agree on a text exactly if it is no sequence of blocks
with its components out of order. -/
theorem matchesDuration_iff_isDuration (s : String) :
    (matchesDuration s = true ↔ IsDuration s.toList) ↔
      ∀ negative w, IsBlocks w → s.toList = start negative ++ w → InOrder w := by
  rw [matchesDuration_iff]
  constructor
  · intro hiff negative w hw hs
    obtain ⟨negative', b, hb, hs'⟩ := hiff.mp ⟨negative, w, hw, hs⟩
    rw [start_inj (hs.symm.trans hs')]
    exact b.named_iff.mp hb
  · intro horder
    constructor
    · rintro ⟨negative, w, hw, hs⟩
      have hw' := horder negative w hw hs
      obtain ⟨bs, hbs, rfl⟩ := hw
      obtain ⟨a, bs, rfl⟩ := List.exists_cons_of_ne_nil hbs
      obtain ⟨b, hb⟩ := Block.exists_flatten_of_ascending bs hw'.ascending
      refine ⟨negative, b, b.named_iff.mpr (hb ▸ hw'), ?_⟩
      rw [hs, hb]
      rfl
    · rintro ⟨negative, b, -, hs⟩
      exact ⟨negative, b.text, ⟨[b], by simp, by simp⟩, hs⟩

theorem not_isDuration {w : List Char} (n : Bool) (h : ¬ InOrder w) :
    ¬ IsDuration (start n ++ w) := by
  rintro ⟨n', b, hb, hs⟩
  exact h (start_inj hs ▸ b.named_iff.mp hb)

/-- The pattern also matches a text that names nothing, or nothing after the `T`, and
one that names the years after the days. -/
theorem not_matchesDuration_iff_isDuration :
    ¬ (matchesDuration "P" = true ↔ IsDuration "P".toList) ∧
      ¬ (matchesDuration "PT" = true ↔ IsDuration "PT".toList) ∧
      ¬ (matchesDuration "P1D1Y" = true ↔ IsDuration "P1D1Y".toList) := by
  refine ⟨fun hiff => ?_, fun hiff => ?_, fun hiff => ?_⟩
  · exact not_isDuration false (fun h => h.named rfl) (hiff.mp (by decide +kernel))
  · exact not_isDuration false (fun h => h.afterT rfl) (hiff.mp (by decide +kernel))
  · refine not_isDuration false (fun h => absurd h.ascending ?_) (hiff.mp (by decide +kernel))
    unfold Ascending
    decide +kernel

end ContentPublishing.Validation
