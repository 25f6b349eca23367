import ContentPublishing.Common.Constants
import ContentPublishing.Lib.Json
import Mathlib.Data.List.Basic
import Mathlib.Logic.Function.Basic

/-!
# Assets named by a request

The API looks up the metadata of the assets that a request names and hands the
worker a table of their MIME types. It goes by the fields that are present in the
body, also those the declared shape of the request does not have; the worker goes
by the type of the announcement. Bodies are arbitrary JSON values.
-/
namespace ContentPublishing.Api
open Json

/-- An entry of `checkingList`, with the text that names it in Redis and in the table. -/
structure Checked where
  onlyImage : Bool
  referenceId : String
  deriving DecidableEq, Repr

/-- `reference.referenceId` as part of a key. -/
def referenceText (reference : Json) : Except TypeError String := do
  templateText (← property (some reference) "referenceId")

def checkReferences (onlyImage : Bool) (references : Option Json) :
    Except TypeError (List Checked) := do
  (← elements references).mapM fun reference => return ⟨onlyImage, ← referenceText reference⟩

/-- The references that the API looks at. -/
def checkingList (content : Json) : Except TypeError (List Checked) := do
  let profile ← property (some content) "profile"
  if truthy profile then
    checkReferences true (← property profile "icon")
  else
    let inner ← property (some content) "content"
    if truthy inner then
      let assets ← elements (← property inner "assets")
      let lists ← assets.mapM fun asset => do
        checkReferences false (← property (some asset) "references")
      return lists.flatten
    else return []

/-- The own properties that the script gives its `Map` object. -/
abbrev MimeTypes := String → Option String

inductive Thrown where
  | typeError
  | badRequest (errors : List String)
  deriving DecidableEq, Repr

def Thrown.ofTypeError : TypeError → Thrown := fun _ => .typeError

/-- `mimeType.toLowerCase().startsWith('image')`. -/
def isImage (mimeType : String) : Bool :=
  "image".toList.isPrefixOf (mimeType.toList.map Char.toLower)

/-- `map[key] = mimeType` on a `Map`: its `size` cannot be assigned, and a text
assigned to `__proto__` is ignored. -/
def assignProperty (map : MimeTypes) (key mimeType : String) : Except Thrown MimeTypes :=
  if key = "size" then throw .typeError
  else if key = "__proto__" then pure map
  else pure (Function.update map key (some mimeType))

section Validation
variable (redis : String → Option String)

/-- One turn of the loop over the stored metadata. -/
def checkResult (field : String) (r : List String × MimeTypes) (c : Checked) :
    Except Thrown (List String × MimeTypes) :=
  match redis c.referenceId with
  | none => pure (r.1 ++ [field ++ ".referenceId " ++ c.referenceId ++ " does not exist!"], r.2)
  | some mimeType => do
      let map ← assignProperty r.2 c.referenceId mimeType
      if c.onlyImage && !isImage mimeType then
        return (r.1 ++ ["profile.icon.referenceId " ++ c.referenceId ++ " is not an image!"], map)
      else return (r.1, map)

/-- `redis` gives the MIME type in the metadata of a reference, if it is stored. -/
def validateAssetsAndFetchMetadata (content : Json) : Except Thrown MimeTypes := do
  let checkingList ← (checkingList content).mapError .ofTypeError
  let profile ← (property (some content) "profile").mapError .ofTypeError
  let field := if truthy profile then "profile.icon" else "content.assets"
  let (errors, map) ← checkingList.foldlM (checkResult redis field) ([], fun _ => none)
  if errors.isEmpty then return map else throw (.badRequest errors)

end Validation

/-! ## What the worker looks up -/

/-- A field, of a value where reading it does not throw. -/
def field? (value : Option Json) (key : String) : Option Json :=
  (property value key).toOption.join

/-- The keys by which the elements of a list of references are looked up. -/
def referenceIds : Option Json → List String
  | some (.arr references) => references.filterMap fun r => (referenceText r).toOption
  | _ => []

/-- The references of all attachments that satisfy `p`. -/
def attachmentIds (p : Json → Bool) : Option Json → List String
  | some (.arr assets) =>
      (assets.filter p).flatMap fun asset => referenceIds (field? (some asset) "references")
  | _ => []

/-- An attachment with references: every type but `link`. -/
def isMedia (asset : Json) : Bool :=
  match field? (some asset) "type" with
  | some (.str type) => type = "image" || type = "video" || type = "audio"
  | _ => false

/-- The references that `DsnpAnnouncementProcessor` looks up in the table. -/
def lookups : AnnouncementTypeDto → Json → List String
  | .broadcast, body | .reply, body | .update, body =>
      attachmentIds isMedia (field? (field? (some body) "content") "assets")
  | .profile, body => referenceIds (field? (field? (some body) "profile") "icon")
  | .reaction, _ | .tombstone, _ => []

section Statement
variable (redis : String → Option String) (t : AnnouncementTypeDto)

/-- The metadata of a reference can be used: it is stored, and of an image where the
announcement needs one. -/
def Usable (id : String) : Prop :=
  ∃ mimeType, redis id = some mimeType ∧ (t = .profile → isImage mimeType = true)

/-- The table has every reference that the worker looks up, with its stored type;
if one of them cannot be used, the request is refused. -/
def Covers (body : Json) : Prop :=
  (∀ map, validateAssetsAndFetchMetadata redis body = .ok map →
      ∀ id ∈ lookups t body, Usable redis t id ∧ map id = redis id) ∧
    ((∃ id ∈ lookups t body, ¬ Usable redis t id) →
      ∃ errors, validateAssetsAndFetchMetadata redis body = .error (.badRequest errors))

/-- The references of the field that the API goes by: `profile.icon` if the body has
a profile, all of `content.assets` otherwise. -/
def named (body : Json) : List String :=
  if truthy (field? (some body) "profile") then
    referenceIds (field? (field? (some body) "profile") "icon")
  else attachmentIds (fun _ => true) (field? (field? (some body) "content") "assets")

/-- A missing list, or a list of values whose `referenceId` can be part of a key. -/
def readableReferences : Option Json → Bool
  | none | some .null => true
  | some (.arr references) => references.all fun r => (referenceText r).isOk
  | some _ => false

/-- A missing list, or a list of values with readable references. -/
def readableAssets : Option Json → Bool
  | none | some .null => true
  | some (.arr assets) => assets.all fun asset =>
      (property (some asset) "references").isOk &&
        readableReferences (field? (some asset) "references")
  | some _ => false

/-- Nothing in the field that the API goes by makes a script throw. -/
def readable (body : Json) : Bool :=
  (property (some body) "profile").isOk &&
    if truthy (field? (some body) "profile") then
      readableReferences (field? (field? (some body) "profile") "icon")
    else readableAssets (field? (field? (some body) "content") "assets")

/-- The worker looks up nothing, or the API finds, in the field that it goes by and
that it can read, everything the worker looks up, under names that a `Map` takes. -/
def FieldsAgree (body : Json) : Prop :=
  lookups t body = [] ∨
    readable body = true ∧ (∀ id ∈ lookups t body, id ∈ named body ∧ id ≠ "__proto__") ∧
      ("size" ∈ named body → t ≠ .profile ∧ ∀ id ∈ lookups t body, id = "size")

end Statement

/-! ## Collecting the references -/

theorem property_eq (value : Option Json) (key : String) :
    property value key = if (property value key).isOk then .ok (field? value key)
      else .error .typeError := by
  unfold field?
  cases h : property value key with
  | error e => rfl
  | ok v => rfl

/-- Only `null` and `undefined` have no properties. -/
theorem property_of_ne {value : Option Json} (hnone : value ≠ none) (hnull : value ≠ some .null)
    (key : String) : property value key = .ok (field? value key) := by
  match value with
  | none => exact absurd rfl hnone
  | some .null => exact absurd rfl hnull
  | some (.bool _) | some (.num _) | some (.str _) | some (.arr _) | some (.obj _) => rfl

theorem property_of_truthy {value : Option Json} (h : truthy value = true) (key : String) :
    property value key = .ok (field? value key) := by
  apply property_of_ne
  · rintro rfl
    cases h
  · rintro rfl
    cases h

theorem field?_of_not_truthy {value : Option Json} (h : truthy value = false) (key : String) :
    field? value key = none := by
  match value with
  | none | some .null | some (.bool _) | some (.num _) | some (.str _) => rfl
  | some (.arr _) | some (.obj _) => cases h

/-- A list is read if each of its elements is. -/
theorem mapM_eq {α β : Type} (f : α → Except TypeError β) (l : List α) :
    l.mapM f = if l.all (fun x => (f x).isOk) then .ok (l.filterMap fun x => (f x).toOption)
      else .error .typeError := by
  induction l with
  | nil => rfl
  | cons x l ih =>
      rw [List.mapM_cons, ih]
      cases hx : f x with
      | error e =>
          have hall : (x :: l).all (fun x => (f x).isOk) = false := by
            rw [List.all_cons, hx]
            rfl
          rw [hall, if_neg Bool.false_ne_true]
          rfl
      | ok y =>
          have hall : (x :: l).all (fun x => (f x).isOk) = l.all fun x => (f x).isOk := by
            rw [List.all_cons, hx]
            rfl
          have hmap : (x :: l).filterMap (fun x => (f x).toOption) =
              y :: l.filterMap fun x => (f x).toOption :=
            List.filterMap_cons_some (by rw [hx]; rfl)
          rw [hall, hmap]
          by_cases hl : l.all (fun x => (f x).isOk) = true
          · rw [if_pos hl, if_pos hl]
            rfl
          · rw [if_neg hl, if_neg hl]
            rfl

theorem isOk_map {α β : Type} (g : α → β) (x : Except TypeError α) : (x.map g).isOk = x.isOk := by
  cases x <;> rfl

theorem toOption_map {α β : Type} (g : α → β) (x : Except TypeError α) :
    (x.map g).toOption = x.toOption.map g := by
  cases x <;> rfl

/-- The entries for a list of references, if all of them can be read. -/
theorem checkReferences_eq (onlyImage : Bool) (references : Option Json) :
    checkReferences onlyImage references = if readableReferences references then
      .ok ((referenceIds references).map (Checked.mk onlyImage)) else .error .typeError := by
  match references with
  | none | some .null | some (.bool _) | some (.num _) | some (.str _) | some (.obj _) => rfl
  | some (.arr references) =>
      have hread : checkReferences onlyImage (some (.arr references)) =
          references.mapM fun r => (referenceText r).map (Checked.mk onlyImage) := rfl
      rw [hread, mapM_eq]
      simp only [isOk_map, toOption_map, readableReferences, referenceIds, List.map_filterMap]

/-- The entries for one attachment. -/
theorem checkAsset_eq (asset : Json) :
    (do checkReferences false (← property (some asset) "references")) =
      if (property (some asset) "references").isOk &&
          readableReferences (field? (some asset) "references") then
        .ok ((referenceIds (field? (some asset) "references")).map (Checked.mk false))
      else .error .typeError := by
  rw [property_eq]
  cases (property (some asset) "references").isOk with
  | false => rfl
  | true => exact checkReferences_eq ..

/-- The entries for a list of attachments, if all of them can be read. -/
theorem checkAssets_eq (assets : Option Json) :
    (do
      let lists ← (← elements assets).mapM fun asset => do
        checkReferences false (← property (some asset) "references")
      return lists.flatten) =
      if readableAssets assets then
        .ok ((attachmentIds (fun _ => true) assets).map (Checked.mk false))
      else .error .typeError := by
  match assets with
  | none | some .null | some (.bool _) | some (.num _) | some (.str _) | some (.obj _) => rfl
  | some (.arr assets) =>
      have hread : ∀ l : List Json, (l.mapM fun asset => do
            checkReferences false (← property (some asset) "references")) =
          if l.all (fun asset => (property (some asset) "references").isOk &&
            readableReferences (field? (some asset) "references")) then
            .ok (l.map fun asset =>
              (referenceIds (field? (some asset) "references")).map (Checked.mk false))
          else .error .typeError := by
        intro l
        induction l with
        | nil => rfl
        | cons asset l ih =>
            rw [List.mapM_cons, ih, checkAsset_eq, List.all_cons, List.map_cons]
            cases (property (some asset) "references").isOk &&
              readableReferences (field? (some asset) "references") with
            | false => rfl
            | true =>
                rw [Bool.true_and]
                by_cases hl : l.all (fun asset => (property (some asset) "references").isOk &&
                    readableReferences (field? (some asset) "references")) = true
                · rw [if_pos hl, if_pos hl]
                  rfl
                · rw [if_neg hl, if_neg hl]
                  rfl
      have hids : attachmentIds (fun _ => true) (some (.arr assets)) =
          assets.flatMap fun asset => referenceIds (field? (some asset) "references") := by
        simp [attachmentIds]
      have hread' : (do
          let lists ← (← elements (some (.arr assets))).mapM fun asset => do
            checkReferences false (← property (some asset) "references")
          return lists.flatten) = (assets.mapM fun asset => do
            checkReferences false (← property (some asset) "references")).map List.flatten := rfl
      rw [hread', hread, hids, List.map_flatMap, readableAssets]
      split_ifs
      · rw [List.flatMap_def]
        rfl
      · rfl

theorem checkingList_eq (body : Json) :
    checkingList body = if readable body then
      .ok ((named body).map (Checked.mk (truthy (field? (some body) "profile"))))
      else .error .typeError := by
  by_cases hbody : body = .null
  · subst body
    rfl
  have hfield : ∀ key, property (some body) key = .ok (field? (some body) key) :=
    property_of_ne (Option.some_ne_none _) fun h => hbody (Option.some.inj h)
  have hok : (Except.ok (field? (some body) "profile") : Except TypeError (Option Json)).isOk =
      true := rfl
  unfold checkingList readable named
  rw [hfield, hfield, hok, Bool.true_and]
  cases hprofile : truthy (field? (some body) "profile") with
  | true =>
      have hicon := property_of_truthy hprofile "icon"
      have hlist := checkReferences_eq true (field? (field? (some body) "profile") "icon")
      simp only [if_pos, bind, Except.bind, hprofile, hicon, hlist]
  | false =>
      have hlist := checkAssets_eq (field? (field? (some body) "content") "assets")
      cases hinner : truthy (field? (some body) "content") with
      | true =>
          have hassets := property_of_truthy hinner "assets"
          simp only [bind, Except.bind, hprofile, hinner, hassets] at hlist ⊢
          exact hlist
      | false =>
          have hassets := field?_of_not_truthy hinner "assets"
          simp only [bind, Except.bind, hprofile, hinner, hassets]
          rfl

/-! ## The loop -/

section Loop
variable (redis : String → Option String) (field : String)

/-- What the loop has to say about one entry. -/
def complaints (c : Checked) : List String :=
  match redis c.referenceId with
  | none => [field ++ ".referenceId " ++ c.referenceId ++ " does not exist!"]
  | some mimeType =>
      if c.onlyImage && !isImage mimeType then
        ["profile.icon.referenceId " ++ c.referenceId ++ " is not an image!"]
      else []

/-- The table after one entry. -/
def record (map : MimeTypes) (c : Checked) : MimeTypes :=
  match redis c.referenceId with
  | none => map
  | some mimeType =>
      if c.referenceId = "__proto__" then map
      else Function.update map c.referenceId (some mimeType)

/-- The entry assigns to the `size` of the `Map`. -/
def Jams (c : Checked) : Prop := c.referenceId = "size" ∧ redis "size" ≠ none

instance (c : Checked) : Decidable (Jams redis c) := inferInstanceAs (Decidable (_ ∧ _))

theorem checkResult_eq (r : List String × MimeTypes) (c : Checked) :
    checkResult redis field r c = if Jams redis c then .error .typeError
      else .ok (r.1 ++ complaints redis field c, record redis r.2 c) := by
  unfold checkResult complaints record
  cases h : redis c.referenceId with
  | none =>
      have hjam : ¬ Jams redis c := by
        rintro ⟨hsize, hstored⟩
        exact hstored (hsize ▸ h)
      rw [if_neg hjam]
      rfl
  | some mimeType =>
      by_cases hsize : c.referenceId = "size"
      · have hjam : Jams redis c :=
          ⟨hsize, by rw [← hsize, h]; exact Option.some_ne_none _⟩
        rw [if_pos hjam]
        simp only [assignProperty, if_pos hsize]
        rfl
      · rw [if_neg (fun hjam => hsize hjam.1)]
        simp only [assignProperty, if_neg hsize]
        split_ifs <;> simp [pure, Except.pure, bind, Except.bind]

theorem foldlM_checkResult (checked : List Checked) (r : List String × MimeTypes) :
    checked.foldlM (checkResult redis field) r =
      if ∃ c ∈ checked, Jams redis c then .error .typeError
      else .ok (r.1 ++ checked.flatMap (complaints redis field),
        checked.foldl (record redis) r.2) := by
  induction checked generalizing r with
  | nil => simp [pure, Except.pure]
  | cons c checked ih =>
      rw [List.foldlM_cons, checkResult_eq]
      by_cases hc : Jams redis c
      · have hex : ∃ d ∈ c :: checked, Jams redis d := ⟨c, List.mem_cons_self .., hc⟩
        rw [if_pos hc, if_pos hex]
        rfl
      · have hex : (∃ d ∈ c :: checked, Jams redis d) ↔ ∃ d ∈ checked, Jams redis d := by
          simp [hc]
        rw [if_neg hc]
        refine (ih _).trans ?_
        simp only [hex, List.flatMap_cons, List.foldl_cons, List.append_assoc]

theorem record_apply (map : MimeTypes) (c : Checked) (id : String) :
    record redis map c id =
      if id ≠ "__proto__" ∧ id = c.referenceId ∧ redis id ≠ none then redis id else map id := by
  unfold record
  by_cases hid : id = c.referenceId
  · subst id
    cases h : redis c.referenceId with
    | none => simp
    | some mimeType =>
        by_cases hproto : c.referenceId = "__proto__"
        · simp [hproto]
        · simp [hproto]
  · rw [if_neg fun h => hid h.2.1]
    cases redis c.referenceId with
    | none => rfl
    | some mimeType =>
        dsimp only
        split_ifs
        · rfl
        · exact Function.update_of_ne hid _ _

/-- The table has the entries that are stored, but for one name. -/
theorem foldl_record (checked : List Checked) (map : MimeTypes) (id : String) :
    checked.foldl (record redis) map id =
      if id ≠ "__proto__" ∧ id ∈ checked.map Checked.referenceId ∧ redis id ≠ none then redis id
      else map id := by
  induction checked generalizing map with
  | nil => simp
  | cons c checked ih =>
      rw [List.foldl_cons, ih, record_apply]
      simp only [List.map_cons, List.mem_cons]
      by_cases hlater : id ∈ checked.map Checked.referenceId
      · by_cases hkeep : id ≠ "__proto__" ∧ redis id ≠ none
        · rw [if_pos ⟨hkeep.1, hlater, hkeep.2⟩, if_pos ⟨hkeep.1, .inr hlater, hkeep.2⟩]
        · rw [if_neg fun h => hkeep ⟨h.1, h.2.2⟩, if_neg fun h => hkeep ⟨h.1, h.2.2⟩,
            if_neg fun h => hkeep ⟨h.1, h.2.2⟩]
      · rw [if_neg fun h => hlater h.2.1]
        simp only [or_iff_left hlater]

/-- The loop has nothing to say about an entry that is stored, as an image if need be. -/
theorem complaints_eq_nil {c : Checked} : complaints redis field c = [] ↔
    ∃ mimeType, redis c.referenceId = some mimeType ∧
      (c.onlyImage = true → isImage mimeType = true) := by
  unfold complaints
  cases redis c.referenceId with
  | none => simp
  | some mimeType => simp

end Loop

section Outcome
variable {redis : String → Option String} {t : AnnouncementTypeDto} {body : Json}

/-- The stored metadata of a reference passes the check of the API. -/
def Acceptable (redis : String → Option String) (body : Json) (id : String) : Prop :=
  ∃ mimeType, redis id = some mimeType ∧
    (truthy (field? (some body) "profile") = true → isImage mimeType = true)

theorem validate_of_not_readable (h : readable body = false) :
    validateAssetsAndFetchMetadata redis body = .error .typeError := by
  unfold validateAssetsAndFetchMetadata
  rw [checkingList_eq, h]
  rfl

/-- The three ways in which the check of a readable body can end. -/
theorem validate_cases (redis : String → Option String) (h : readable body = true) :
    ("size" ∈ named body ∧ redis "size" ≠ none ∧
        validateAssetsAndFetchMetadata redis body = .error .typeError) ∨
      (¬ ("size" ∈ named body ∧ redis "size" ≠ none) ∧
        (∀ id ∈ named body, Acceptable redis body id) ∧
        validateAssetsAndFetchMetadata redis body = .ok fun id =>
          if id ≠ "__proto__" ∧ id ∈ named body ∧ redis id ≠ none then redis id else none) ∨
      (¬ ("size" ∈ named body ∧ redis "size" ≠ none) ∧
        ¬ (∀ id ∈ named body, Acceptable redis body id) ∧
        ∃ errors, validateAssetsAndFetchMetadata redis body = .error (.badRequest errors)) := by
  have hbody : property (some body) "profile" = .ok (field? (some body) "profile") := by
    apply property_of_ne (Option.some_ne_none _)
    intro hnull
    rw [Option.some.inj hnull] at h
    cases h
  let checked := (named body).map (Checked.mk (truthy (field? (some body) "profile")))
  let field := if truthy (field? (some body) "profile") then "profile.icon" else "content.assets"
  have hids : checked.map Checked.referenceId = named body := by
    simp [checked, Function.comp_def]
  have hrun : validateAssetsAndFetchMetadata redis body =
      (checked.foldlM (checkResult redis field) ([], fun _ => none)).bind fun r =>
        if r.1.isEmpty then .ok r.2 else .error (.badRequest r.1) := by
    unfold validateAssetsAndFetchMetadata
    rw [checkingList_eq, if_pos h, hbody]
    rfl
  rw [hrun, foldlM_checkResult]
  have hjams : (∃ c ∈ checked, Jams redis c) ↔ "size" ∈ named body ∧ redis "size" ≠ none := by
    simp [checked, Jams]
  have hnil : checked.flatMap (complaints redis field) = [] ↔
      ∀ id ∈ named body, Acceptable redis body id := by
    simp [checked, List.flatMap_eq_nil_iff, complaints_eq_nil, Acceptable]
  have htable : checked.foldl (record redis) (fun _ => none) = fun id =>
      if id ≠ "__proto__" ∧ id ∈ named body ∧ redis id ≠ none then redis id else none := by
    funext id
    rw [foldl_record, hids]
  by_cases hjam : ∃ c ∈ checked, Jams redis c
  · refine .inl ⟨(hjams.mp hjam).1, (hjams.mp hjam).2, ?_⟩
    rw [if_pos hjam]
    rfl
  · rw [if_neg hjam, htable, List.nil_append]
    by_cases hall : ∀ id ∈ named body, Acceptable redis body id
    · refine .inr (.inl ⟨fun hsize => hjam (hjams.mpr hsize), hall, ?_⟩)
      rw [hnil.mpr hall]
      rfl
    · refine .inr (.inr ⟨fun hsize => hjam (hjams.mpr hsize), hall,
        checked.flatMap (complaints redis field), ?_⟩)
      have hne : (checked.flatMap (complaints redis field)).isEmpty = false := by
        rw [List.isEmpty_eq_false_iff]
        exact fun hempty => hall (hnil.mp hempty)
      simp only [Except.bind, hne]
      rfl

/-- Where the fields agree, the worker needs no more than the API demands. -/
theorem usable_of_acceptable (ht : t = .profile → truthy (field? (some body) "profile") = true)
    {id : String} (h : Acceptable redis body id) : Usable redis t id := by
  obtain ⟨mimeType, hstored, himage⟩ := h
  exact ⟨mimeType, hstored, fun hprofile => himage (ht hprofile)⟩

/-- The worker looks up icons only in a profile that the API goes by. -/
theorem truthy_of_lookups {id : String} (hid : id ∈ lookups .profile body) :
    truthy (field? (some body) "profile") = true := by
  by_contra hfalse
  have hicon := field?_of_not_truthy (Bool.eq_false_iff.mpr hfalse) "icon"
  rw [lookups, hicon] at hid
  cases hid

theorem covers_of_fieldsAgree (h : FieldsAgree t body) (redis : String → Option String) :
    Covers redis t body := by
  rcases h with hnil | ⟨hread, hids, hsize⟩
  · unfold Covers
    rw [hnil]
    exact ⟨fun _ _ _ hid => (by cases hid), fun ⟨_, hid, _⟩ => (by cases hid)⟩
  have husable : ∀ id ∈ lookups t body, Acceptable redis body id → Usable redis t id := by
    intro id hid
    apply usable_of_acceptable
    rintro rfl
    exact truthy_of_lookups hid
  rcases validate_cases redis hread with ⟨hin, hstored, heq⟩ | ⟨_, hall, heq⟩ | ⟨_, _, errors, heq⟩
  · obtain ⟨ht, hsame⟩ := hsize hin
    refine ⟨fun map hmap => ?_, fun ⟨id, hid, hbad⟩ => ?_⟩
    · rw [heq] at hmap
      cases hmap
    · obtain ⟨mimeType, hmime⟩ := Option.ne_none_iff_exists'.mp hstored
      have hid' : id = "size" := hsame id hid
      subst id
      exact absurd ⟨mimeType, hmime, fun hprofile => absurd hprofile ht⟩ hbad
  · refine ⟨fun map hmap id hid => ?_, fun ⟨id, hid, hbad⟩ => ?_⟩
    · have haccept := hall id (hids id hid).1
      rw [heq, Except.ok.injEq] at hmap
      subst map
      refine ⟨husable id hid haccept, if_pos ⟨(hids id hid).2, (hids id hid).1, ?_⟩⟩
      obtain ⟨mimeType, hmime, _⟩ := haccept
      rw [hmime]
      exact Option.some_ne_none _
    · exact absurd (husable id hid (hall id (hids id hid).1)) hbad
  · refine ⟨fun map hmap => ?_, fun _ => ⟨errors, heq⟩⟩
    rw [heq] at hmap
    cases hmap

/-- A readable request with a reference that cannot be used is refused by the loop. -/
theorem refused_of_covers (h : Covers redis t body) (hread : readable body = true) {id : String}
    (hid : id ∈ lookups t body) (hbad : ¬ Usable redis t id) :
    ¬ ("size" ∈ named body ∧ redis "size" ≠ none) ∧
      ¬ ∀ id ∈ named body, Acceptable redis body id := by
  obtain ⟨errors, hrefused⟩ := h.2 ⟨id, hid, hbad⟩
  rcases validate_cases redis hread with ⟨_, _, heq⟩ | ⟨_, _, heq⟩ | ⟨hjam, hall, _⟩
  · rw [heq] at hrefused
    cases hrefused
  · rw [heq] at hrefused
    cases hrefused
  · exact ⟨hjam, hall⟩

theorem not_usable_of_none {id : String} (h : redis id = none) : ¬ Usable redis t id := by
  rintro ⟨mimeType, hmime, _⟩
  rw [h] at hmime
  cases hmime

theorem acceptable_of_image {id : String} (h : redis id = some "image") :
    Acceptable redis body id := ⟨"image", h, fun _ => by decide⟩

theorem fieldsAgree_of_covers (h : ∀ redis, Covers redis t body) : FieldsAgree t body := by
  by_cases hnil : lookups t body = []
  · exact .inl hnil
  obtain ⟨id₀, hid₀⟩ := List.exists_mem_of_ne_nil _ hnil
  have hread : readable body = true := by
    by_contra hnot
    obtain ⟨errors, hrefused⟩ := (h fun _ => none).2 ⟨id₀, hid₀, not_usable_of_none rfl⟩
    rw [validate_of_not_readable (Bool.eq_false_iff.mpr hnot)] at hrefused
    cases hrefused
  -- everything is an image but for the one reference
  have hmissing : ∀ id ∈ lookups t body, id ∈ named body ∧ ("size" ∈ named body → id = "size") := by
    intro id hid
    have hbad : ¬ Usable (fun k => if k = id then none else some "image") t id :=
      not_usable_of_none (if_pos rfl)
    obtain ⟨hjam, hall⟩ := refused_of_covers (h _) hread hid hbad
    constructor
    · by_contra hnot
      refine hall fun k hk => acceptable_of_image (if_neg ?_)
      rintro rfl
      exact hnot hk
    · intro hsize
      by_contra hne
      refine hjam ⟨hsize, ?_⟩
      rw [if_neg (Ne.symm hne)]
      exact Option.some_ne_none _
  refine .inr ⟨hread, fun id hid => ⟨(hmissing id hid).1, ?_⟩, fun hsize => ⟨?_, ?_⟩⟩
  · rintro rfl
    have himage : ∀ k ∈ named body, Acceptable (fun _ => some "image") body k :=
      fun k _ => acceptable_of_image rfl
    rcases validate_cases (fun _ => some "image") hread with
      ⟨hin, _, _⟩ | ⟨_, _, heq⟩ | ⟨_, hall, _⟩
    · have hname := (hmissing _ hid).2 hin
      exact absurd hname (by decide)
    · have hmap := ((h _).1 _ heq _ hid).2
      simp at hmap
    · exact hall himage
  · rintro rfl
    have hbad : ¬ Usable (fun _ => some "text") .profile id₀ := by
      rintro ⟨mimeType, hmime, himage⟩
      rw [← Option.some.inj hmime] at himage
      exact absurd (himage rfl) (by decide)
    exact (refused_of_covers (h _) hread hid₀ hbad).1 ⟨hsize, Option.some_ne_none _⟩
  · exact fun id hid => (hmissing id hid).2 hsize

end Outcome

/-- The table covers what the worker looks up, whatever Redis holds, exactly for the
bodies whose fields agree. -/
theorem covers_iff_fieldsAgree (t : AnnouncementTypeDto) (body : Json) :
    (∀ redis, Covers redis t body) ↔ FieldsAgree t body :=
  ⟨fieldsAgree_of_covers, covers_of_fieldsAgree⟩

/-- A broadcast with an image and an empty profile. -/
def strayProfile : Json :=
  .obj [("content", .obj [("content", .str "hello"), ("published", .str "2024-01-01T00:00:00Z"),
      ("assets", .arr [.obj [("type", .str "image"),
        ("references", .arr [.obj [("referenceId", .str "bafy")]])]])]),
    ("profile", .obj [])]

theorem not_covers_strayProfile : ¬ ∀ redis, Covers redis .broadcast strayProfile := by
  intro h
  obtain ⟨errors, hrefused⟩ := (h fun _ => none).2 ⟨"bafy", by decide, not_usable_of_none rfl⟩
  cases hrefused

end ContentPublishing.Api
