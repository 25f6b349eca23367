import ContentPublishing.Announcements.Processor
import ContentPublishing.Validation.DsnpUri

/-!
# The user identifier of a request

The route parameter is any text of digits, and becomes the `fromId` of the announcement
as it is. A user identifier in a URI is a 64-bit number without leading zero.
-/
namespace ContentPublishing.Announcements
open Dependencies (Ipfs IpfsApi)
open Effects Regex Validation

/-! ## Requests -/

def isNotEmpty (value : String) : Bool := value != ""

/-- With `no_symbols` only digits are left. -/
def isNumberString (value : String) : Bool := !value.toList.isEmpty && value.toList.all isDigit

/-- What `DsnpUserIdParam` accepts. -/
def dsnpUserIdParam (userDsnpId : String) : Bool :=
  isNotEmpty userDsnpId && isNumberString userDsnpId

def enqueueRequest (calculateJobId : String → RequestTypeDto → String) (dsnpUserId : String)
    (content : RequestTypeDto) (assetToMimeType : Option (List (String × String))) : RequestJob :=
  ⟨calculateJobId dsnpUserId content, dsnpUserId, assetToMimeType, content⟩

/-- The job of a request, if the route accepts its parameter. -/
def acceptRequest (calculateJobId : String → RequestTypeDto → String) (userDsnpId : String)
    (content : RequestTypeDto) (assetToMimeType : Option (List (String × String))) :
    Option RequestJob :=
  if dsnpUserIdParam userDsnpId then
    some (enqueueRequest calculateJobId userDsnpId content assetToMimeType)
  else none

/-! ## Agreement -/

/-- A text of digits with the value of an unsigned 64-bit integer, as it is written. -/
def IsUInt64 (id : String) : Prop := ∃ n : ℕ, n < 2 ^ 64 ∧ id = toString n

/-- The route takes the identifiers that a URI may have, and an announcement that comes
of a request that it took has one. -/
structure Agrees (userDsnpId : String) : Prop where
  validators : dsnpUserIdParam userDsnpId = true ↔
    isDsnpUserURI (some (.str ("dsnp://" ++ userDsnpId))) = true
  fromId : ∀ calculateJobId content assetToMimeType data,
    acceptRequest calculateJobId userDsnpId content assetToMimeType = some data →
    ∀ (order : FetchOrder data.content) (api : IpfsApi) (services : Services) (answers : Bool)
      (ipfs ipfs' : Ipfs) (queued : Queued),
      exec (collectAnnouncementAndQueue api services answers data order) ipfs =
        (.ok queued, ipfs') → IsUInt64 queued.announcement.fromId

/-- Not empty, and if it is a number then one without leading zero that fits. -/
def Fits (userDsnpId : String) : Prop :=
  userDsnpId ≠ "" ∧ (isNumberString userDsnpId = true →
    ¬ "0".toList <+: userDsnpId.toList ∧ Nat.ofDigitChars 10 userDsnpId.toList 0 < 2 ^ 64)

section Numerals

theorem digitChar_of_isDigit {c : Char} (h : isDigit c = true) :
    Nat.digitChar (c.toNat - '0'.toNat) = c := by
  have hchar : ∀ k < 10, Nat.digitChar k = Char.ofNat (48 + k) := by decide
  simp only [isDigit, Bool.and_eq_true, decide_eq_true_eq] at h
  have hlow : 48 ≤ c.toNat := h.1
  have hhigh : c.toNat ≤ 57 := h.2
  have hzero : '0'.toNat = 48 := rfl
  rw [hzero, hchar _ (by omega), Nat.add_sub_cancel' hlow, Char.ofNat_toNat]

/-- A numeral without leading zero is the text of its value. -/
theorem toDigits_ofDigitChars {d : List Char} (hd : d ≠ []) (h : ∀ c ∈ d, isDigit c = true)
    (hleading : ¬ "0".toList <+: d) : Nat.toDigits 10 (Nat.ofDigitChars 10 d 0) = d := by
  induction d using List.reverseRecOn with
  | nil => exact absurd rfl hd
  | append_singleton d c ih =>
      obtain ⟨hdigits, hc⟩ := List.forall_mem_append.mp h
      have hc := hc c (List.mem_singleton_self c)
      have hlt := (digitValue_of_isDigit hc).2
      have hlast : Nat.toDigits 10 (c.toNat - '0'.toNat) = [c] := by
        rw [Nat.toDigits_of_lt_base hlt, digitChar_of_isDigit hc]
      have hvalue : Nat.ofDigitChars 10 (d ++ [c]) 0 =
          10 * Nat.ofDigitChars 10 d 0 + (c.toNat - '0'.toNat) := by
        rw [Nat.ofDigitChars_append, Nat.ofDigitChars_cons, Nat.ofDigitChars_nil]
      rw [hvalue]
      by_cases hempty : d = []
      · subst d
        simpa using hlast
      · have hprefix : ¬ "0".toList <+: d := fun hp => hleading (hp.trans (List.prefix_append _ _))
        have ih := ih hempty hdigits hprefix
        have hpos : 0 < Nat.ofDigitChars 10 d 0 := by
          refine Nat.pos_of_ne_zero fun hzero => hprefix ?_
          rw [hzero, Nat.toDigits_zero] at ih
          rw [← ih]
          exact List.prefix_refl ['0']
        rw [← Nat.toDigits_append_toDigits (by decide) hpos hlt, ih, hlast]

/-- A 64-bit numeral is the text of its value. -/
theorem Numeral.isUInt64 {id : String} (h : Numeral id.toList) : IsUInt64 id := by
  refine ⟨Nat.ofDigitChars 10 id.toList 0, ?_, ?_⟩
  · have hbounded := h.bounded
    omega
  · rw [Nat.toString_eq_ofList_toDigits, toDigits_ofDigitChars h.nonempty h.digits h.leading,
      String.ofList_toList]

end Numerals

section FromId
variable {api : IpfsApi} {services : Services} {answers : Bool} {ipfs ipfs' : Ipfs}

/-- An announcement is made out in the name of the user of the request. -/
theorem fromId_collectAnnouncementAndQueue {data : RequestJob} {order : FetchOrder data.content}
    {queued : Queued} (h : exec (collectAnnouncementAndQueue api services answers data order) ipfs =
      (.ok queued, ipfs')) : queued.announcement.fromId = data.dsnpUserId := by
  obtain ⟨id, dsnpUserId, assetToMimeType, content⟩ := data
  cases content with
  | broadcast content =>
      obtain ⟨announcement, _, hprocess, hqueued⟩ := of_exec_bind h
      cases hqueued
      obtain ⟨note, rfl⟩ := of_exec_bind_pure hprocess
      rfl
  | reply inReplyTo content =>
      obtain ⟨announcement, _, hprocess, hqueued⟩ := of_exec_bind h
      cases hqueued
      obtain ⟨note, rfl⟩ := of_exec_bind_pure hprocess
      rfl
  | reaction emoji apply inReplyTo =>
      cases h
      rfl
  | update targetContentHash targetType content =>
      obtain ⟨announcement, _, hprocess, hqueued⟩ := of_exec_bind h
      cases hqueued
      obtain ⟨note, rfl⟩ := of_exec_bind_pure hprocess
      rfl
  | tombstone targetContentHash targetType =>
      cases h
      rfl
  | profile dto =>
      obtain ⟨announcement, _, hprocess, hqueued⟩ := of_exec_bind h
      cases hqueued
      obtain ⟨_, _, _, hprocess⟩ := of_exec_bind hprocess
      obtain ⟨attachments, _, _, hprocess⟩ := of_exec_bind hprocess
      obtain ⟨pin, rfl⟩ := of_exec_bind_pure hprocess
      rfl

end FromId

section Agreement
variable {userDsnpId : String}

theorem isNumberString_iff : isNumberString userDsnpId = true ↔
    userDsnpId.toList ≠ [] ∧ ∀ c ∈ userDsnpId.toList, isDigit c = true := by
  simp [isNumberString]

theorem dsnpUserIdParam_iff : dsnpUserIdParam userDsnpId = true ↔
    isNumberString userDsnpId = true := by
  rw [dsnpUserIdParam, Bool.and_eq_true, and_iff_right_iff_imp]
  intro h
  obtain ⟨hne, -⟩ := isNumberString_iff.mp h
  simpa [isNotEmpty] using hne

/-- Behind `dsnp://` the text of a user identifier may be missing. -/
theorem isDsnpUserURI_append : isDsnpUserURI (some (.str ("dsnp://" ++ userDsnpId))) = true ↔
    MsaId userDsnpId.toList := by
  rw [isDsnpUserURI_iff, String.toList_append]
  constructor
  · rintro ⟨d, hd, heq⟩
    rwa [List.append_cancel_left heq]
  · exact fun h => ⟨_, h, rfl⟩

theorem fits_of_validators (h : dsnpUserIdParam userDsnpId = true ↔
    isDsnpUserURI (some (.str ("dsnp://" ++ userDsnpId))) = true) : Fits userDsnpId := by
  rw [dsnpUserIdParam_iff, isDsnpUserURI_append] at h
  refine ⟨?_, fun hnumber => ?_⟩
  · rintro rfl
    have hnumber := h.mpr (msaId_iff.mpr (.inl rfl))
    exact (isNumberString_iff.mp hnumber).1 rfl
  · obtain ⟨-, hleading, hbounded⟩ := h.mp hnumber
    exact ⟨hleading, by omega⟩

/-- The two validators of a user identifier agree, and an accepted one is fit to be
written, exactly if it is not empty and no number that a URI would reject. -/
theorem agrees_iff (userDsnpId : String) : Agrees userDsnpId ↔ Fits userDsnpId := by
  constructor
  · exact fun h => fits_of_validators h.validators
  · rintro ⟨hne, hnumber⟩
    have hnumeral : isNumberString userDsnpId = true ↔ Numeral userDsnpId.toList := by
      constructor
      · intro h
        obtain ⟨hleading, hbounded⟩ := hnumber h
        obtain ⟨hnonempty, hdigits⟩ := isNumberString_iff.mp h
        exact ⟨hnonempty, hdigits, hleading, by omega⟩
      · exact fun h => isNumberString_iff.mpr ⟨h.nonempty, h.digits⟩
    refine ⟨?_, fun calculateJobId content assetToMimeType data hdata order api services answers
      ipfs ipfs' queued hqueued => ?_⟩
    · have hnil : userDsnpId.toList ≠ [] := by simpa using hne
      rw [dsnpUserIdParam_iff, isDsnpUserURI_append, hnumeral, msaId_iff, or_iff_right hnil]
    · unfold acceptRequest at hdata
      split at hdata
      · next haccepted =>
          cases hdata
          rw [fromId_collectAnnouncementAndQueue hqueued]
          exact Numeral.isUInt64 (hnumeral.mp (dsnpUserIdParam_iff.mp haccepted))
      · cases hdata

/-- A leading zero, a number that does not fit, and nothing at all. -/
theorem not_agrees :
    ¬ Agrees "007" ∧ ¬ Agrees "18446744073709551616" ∧ ¬ Agrees "" := by
  refine ⟨fun h => ?_, fun h => ?_, fun h => ?_⟩
  · have hfits := fits_of_validators h.validators
    exact absurd (hfits.2 (by decide +kernel)).1 (by decide +kernel)
  · have hfits := fits_of_validators h.validators
    exact absurd (hfits.2 (by decide +kernel)).2 (by decide +kernel)
  · exact (fits_of_validators h.validators).1 rfl

end Agreement

end ContentPublishing.Announcements
