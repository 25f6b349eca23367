import ContentPublishing.Publisher.Publishing
import Mathlib.Data.Rat.Floor

/-!
# Whether an accepted capacity limit is enforced

The environment validator reads the configured value as Joi does, which converts
texts to numbers. The service parses the original again and converts its value to a
`BigInt`, or compares a `BigInt` with it.
-/
namespace ContentPublishing.Publisher
open Effects

/-! ## The validator -/

section Validator
variable (joiNumber : String → Option ℚ)

/-- What `Joi.number()` makes of the value; of a text it is a parameter. -/
def LimitValue.joiValue : LimitValue → Option ℚ
  | .number value => some value
  | .text value => joiNumber value

/-- The validator of `CAPACITY_LIMIT` on the parsed object: the number that was
validated, or `none` if the object is refused. -/
def validateCapacityLimit (capacityLimit : ICapacityLimit) : Option ℚ := do
  let value ← capacityLimit.value.joiValue joiNumber
  match capacityLimit.type with
  | .percentage => if 0 ≤ value ∧ value ≤ 100 then some value else none
  | .amount => if 0 ≤ value then some value else none

end Validator

/-! ## What the limit prescribes -/

/-- The limit of an epoch, for the number that was validated. -/
def ICapacityLimit.limit (capacityLimit : ICapacityLimit) (value : ℚ) (totalCapacityIssued : ℕ) :
    ℚ :=
  match capacityLimit.type with
  | .percentage => ⌊(totalCapacityIssued * value / 100 : ℚ)⌋
  | .amount => value

/-- Nothing remains on the chain, or as much is used as the limit allows. -/
def Reached (capacityLimit : ICapacityLimit) (value : ℚ) (capacity : CapacityInfo) (used : ℕ) :
    Prop :=
  capacity.remainingCapacity ≤ 0 ∨ capacityLimit.limit value capacity.totalCapacityIssued ≤ used

instance (capacityLimit : ICapacityLimit) (value : ℚ) (capacity : CapacityInfo) (used : ℕ) :
    Decidable (Reached capacityLimit value capacity used) :=
  inferInstanceAs (Decidable (_ ∨ _))

/-- The check raises the event that the limit prescribes, and does nothing else. -/
def Enforced (capacityLimit : ICapacityLimit) (env : Env) (value : ℚ) (capacity : CapacityInfo)
    (used : ℕ) : Prop :=
  ∀ s, exec (checkCapacity capacityLimit env) s =
    exec (raise env (decide (Reached capacityLimit value capacity used))) s

/-- The configured value is an integer to the service as well, or is not needed to
be: it is a number to compare with, or a text that is more than what is used. -/
def Readable (capacityLimit : ICapacityLimit) (value : ℚ) (used : ℕ) : Prop :=
  capacityLimit.value.toBigInt.isSome ∨
    capacityLimit.type = .amount ∧ (capacityLimit.value = .number value ∨ used < value)

/-! ## The verdict of a check -/

section Verdict
variable {joiNumber : String → Option ℚ} {capacityLimit : ICapacityLimit} {env : Env} {value : ℚ}
  {capacity : CapacityInfo} {used : ℕ} {s : PublisherState}

theorem nonneg_of_validate (h : validateCapacityLimit joiNumber capacityLimit = some value) :
    capacityLimit.value.joiValue joiNumber = some value ∧ 0 ≤ value := by
  obtain ⟨number, hnumber, h⟩ := Option.bind_eq_some_iff.mp h
  cases htype : capacityLimit.type <;> simp only [htype] at h <;> split at h <;> cases h
  · exact ⟨hnumber, by tauto⟩
  · exact ⟨hnumber, ‹_›⟩

/-- Where both conversions are defined they agree. -/
theorem toBigInt_eq (hjoi : ∀ text x n, joiNumber text = some x → BigInt.ofText text = some n →
    x = n) {v : LimitValue} {n : ℤ} (hv : v.joiValue joiNumber = some value)
    (hn : v.toBigInt = some n) : value = n := by
  cases v with
  | text text => exact hjoi text value n hv hn
  | number x =>
      obtain rfl : x = value := Option.some.inj hv
      simp only [LimitValue.toBigInt, BigInt.ofNumber] at hn
      split at hn
      · next hden =>
          rw [← Option.some.inj hn]
          exact (Rat.den_eq_one_iff x).mp hden |>.symm
      · cases hn

/-- Truncation to a whole percentage rounds down. -/
theorem tdiv_le_iff (total used : ℕ) {n : ℤ} (hn : 0 ≤ n) :
    Int.tdiv (total * n) 100 ≤ used ↔ ((⌊(total * n / 100 : ℚ)⌋ : ℤ) : ℚ) ≤ used := by
  have hfloor : ⌊(total * n / 100 : ℚ)⌋ = (total * n : ℤ) / 100 := by
    exact_mod_cast Rat.floor_intCast_div_natCast (total * n : ℤ) 100
  rw [hfloor, Int.tdiv_eq_ediv_of_nonneg (mul_nonneg (Int.natCast_nonneg total) hn)]
  exact_mod_cast Iff.rfl

/-- The threshold of a percentage is the one prescribed if it can be computed. -/
theorem threshold_eq_iff (hjoi : ∀ text x n, joiNumber text = some x → BigInt.ofText text = some n →
    x = n) {v : LimitValue} (hv : v.joiValue joiNumber = some value) (hnonneg : 0 ≤ value)
    (total : ℕ) :
    (v.toBigInt.map fun n => decide (Int.tdiv (total * n) 100 ≤ used)) =
        some (decide ((⌊(total * value / 100 : ℚ)⌋ : ℚ) ≤ used)) ↔
      v.toBigInt.isSome := by
  cases hn : v.toBigInt with
  | none => simp
  | some n =>
      have heq := toBigInt_eq hjoi hv hn
      have hn' : 0 ≤ n := by exact_mod_cast heq ▸ hnonneg
      rw [heq, Option.map_some]
      simp only [Option.isSome_some, iff_true]
      exact congrArg some (decide_eq_decide.mpr (tdiv_le_iff total used hn'))

/-- An amount is compared as the number that was validated, unless it is a text
that is no integer and has been reached. -/
theorem reachedBy_eq_iff (hjoi : ∀ text x n, joiNumber text = some x → BigInt.ofText text = some n →
    x = n) {v : LimitValue} (hv : v.joiValue joiNumber = some value) :
    v.reachedBy used = decide (value ≤ used) ↔
      v.toBigInt.isSome ∨ v = .number value ∨ used < value := by
  cases v with
  | number x =>
      obtain rfl : x = value := Option.some.inj hv
      simp [LimitValue.reachedBy]
  | text text =>
      cases hn : BigInt.ofText text with
      | some n =>
          have heq := hjoi text value n hv hn
          have hint : (n : ℚ) ≤ used ↔ n ≤ used := by exact_mod_cast Iff.rfl
          simp [LimitValue.reachedBy, LimitValue.toBigInt, hn, heq, hint]
      | none => simp [LimitValue.reachedBy, LimitValue.toBigInt, hn]

/-- The comparison comes out as the limit prescribes if and only if it is readable. -/
theorem outOfCapacity_eq_iff
    (hjoi : ∀ text x n, joiNumber text = some x → BigInt.ofText text = some n → x = n)
    (hvalid : validateCapacityLimit joiNumber capacityLimit = some value) :
    outOfCapacity capacityLimit capacity used =
        some (decide (Reached capacityLimit value capacity used)) ↔
      capacity.remainingCapacity ≤ 0 ∨ Readable capacityLimit value used := by
  obtain ⟨hvalue, hnonneg⟩ := nonneg_of_validate hvalid
  by_cases hremaining : capacity.remainingCapacity ≤ 0
  · simp [outOfCapacity, Reached, hremaining]
  have hreached : Reached capacityLimit value capacity used ↔
      capacityLimit.limit value capacity.totalCapacityIssued ≤ used := by
    rw [Reached, or_iff_right hremaining]
  simp only [outOfCapacity, if_neg hremaining, hreached, or_iff_right hremaining, Readable,
    ICapacityLimit.limit]
  cases capacityLimit.type with
  | percentage =>
      simpa using threshold_eq_iff hjoi hvalue hnonneg capacity.totalCapacityIssued
  | amount => simpa using reachedBy_eq_iff hjoi hvalue

/-! ## The check -/

theorem verdict_eq (hcapacity : capacityInfo env .checkCapacity = .ok capacity)
    (hget : env.fails .getUsedCapacity = none) :
    verdict capacityLimit env =
      match outOfCapacity capacityLimit capacity
          ((env.usedCapacity capacity.currentEpoch).getD 0) with
      | none => .error .notABigInt
      | some exhausted => .ok exhausted := by
  unfold verdict
  rw [hcapacity]
  simp only [Env.call, hget]
  rfl

/-- Every handler first notes which event it handles. -/
theorem capacityExhausted_raise (exhausted : Bool) :
    (exec (raise env exhausted) s).2.capacityExhausted = exhausted := by
  cases exhausted with
  | true =>
      have hrest : Keeps (fun t : PublisherState => t.capacityExhausted = true) (do
          ask (env.call .pause ())
          modify fun t => { t with queuePaused := true }
          scheduleCheck env) :=
        keeps_bind (keeps_ask _) fun _ => keeps_bind (keeps_modify fun _ h => h) fun _ =>
          keeps_scheduleCheck fun _ _ _ _ h => h
      rw [exec_raise, if_pos rfl, handleCapacityExhausted, exec_bind _ (exec_modify _ _)]
      exact hrest _ rfl
  | false =>
      have hrest : Keeps (fun t : PublisherState => t.capacityExhausted = false)
          (tryCatch (deleteTimeout capacityEpochTimeoutName) fun _ => pure ()) :=
        keeps_tryCatch (keeps_deleteTimeout (fun _ _ _ _ h => h) _) fun _ => keeps_pure _
      rw [exec_raise, if_neg Bool.false_ne_true, handleCapacityRefilled,
        exec_bind _ (exec_modify _ _)]
      exact hrest _ rfl

/-- A check that raises the other event, or none, is told by the flag it leaves. -/
theorem enforced_iff_verdict :
    Enforced capacityLimit env value capacity used ↔
      verdict capacityLimit env = .ok (decide (Reached capacityLimit value capacity used)) := by
  constructor
  · intro h
    let exhausted := decide (Reached capacityLimit value capacity used)
    have hs := h { PublisherState.start with capacityExhausted := !exhausted }
    have hflag := congrArg (fun r => r.2.capacityExhausted) hs
    cases hv : verdict capacityLimit env with
    | error e =>
        rw [exec_checkCapacity_error hv, capacityExhausted_raise] at hflag
        exact absurd hflag (Bool.not_ne_self _)
    | ok answer =>
        rw [exec_checkCapacity hv, capacityExhausted_raise, capacityExhausted_raise] at hflag
        rw [hflag]
  · exact exec_checkCapacity

/-- The limit is enforced if and only if capacity ran out on the chain or the
configured value is one the service can read. -/
theorem enforced_iff_readable
    (hjoi : ∀ text x n, joiNumber text = some x → BigInt.ofText text = some n → x = n)
    (hvalid : validateCapacityLimit joiNumber capacityLimit = some value)
    (hcapacity : capacityInfo env .checkCapacity = .ok capacity)
    (hget : env.fails .getUsedCapacity = none)
    (hused : (env.usedCapacity capacity.currentEpoch).getD 0 = used) :
    Enforced capacityLimit env value capacity used ↔
      capacity.remainingCapacity ≤ 0 ∨ Readable capacityLimit value used := by
  rw [enforced_iff_verdict, verdict_eq hcapacity hget, hused, ← outOfCapacity_eq_iff hjoi hvalid]
  cases outOfCapacity capacityLimit capacity used <;> simp

end Verdict

/-! ## Limits of both kinds -/

/-- What `Env.sample` answers. -/
def CapacityInfo.sample (remainingCapacity : ℕ) : CapacityInfo :=
  ⟨1, 10, 100, remainingCapacity, 1000⟩

/-- The numbers of two texts. -/
def joiNumberSample (text : String) : Option ℚ :=
  if text = "80" then some 80 else if text = "1e3" then some 1000 else none

/-- A percentage given as a text. -/
theorem enforced_text :
    Enforced ⟨.percentage, .text "80"⟩ (.sample 500) 80 (.sample 500) 0 := by
  have hvalid : validateCapacityLimit joiNumberSample ⟨.percentage, .text "80"⟩ = some 80 := by
    decide +kernel
  refine (enforced_iff_readable ?_ hvalid rfl rfl rfl).mpr (.inr (.inl (by decide)))
  intro text x n hx hn
  unfold joiNumberSample at hx
  split_ifs at hx with h80 h1e3
  · subst h80
    have hread : BigInt.ofText "80" = some 80 := by decide
    rw [← Option.some.inj hx, ← Option.some.inj (hread.symm.trans hn)]
    rfl
  · subst h1e3
    have hread : BigInt.ofText "1e3" = none := by decide
    cases hread.symm.trans hn

/-- A percentage with a fraction ends every check with an exception; an amount with
an exponent, given as a text, is never reached. -/
theorem not_enforced_fraction :
    (∀ used, capacityInfo { Env.sample 500 with usedCapacity _ := used } .checkCapacity =
      .ok (.sample 500)) ∧
    (validateCapacityLimit joiNumberSample ⟨.percentage, .number (67 / 2)⟩ = some (67 / 2) ∧
      ¬ Enforced ⟨.percentage, .number (67 / 2)⟩ (.sample 500) (67 / 2) (.sample 500) 0) ∧
    (validateCapacityLimit joiNumberSample ⟨.amount, .text "1e3"⟩ = some 1000 ∧
      ¬ Enforced ⟨.amount, .text "1e3"⟩ { Env.sample 500 with usedCapacity _ := some 1000 } 1000
        (.sample 500) 1000) := by
  simp only [enforced_iff_verdict]
  exact ⟨fun _ => rfl, by decide +kernel⟩

end ContentPublishing.Publisher
