import ContentPublishing.Announcements.Translation
import ContentPublishing.Lib.JsonText

/-!
# What can be read from an activity

The activities that a request may lead to, which differ in their attachments only. The
bytes of an activity determine every value in it, so what a request says apart from its
assets can be read back from what is pinned for it.
-/
namespace ContentPublishing.Announcements
open Dependencies (Ipfs IpfsApi Thrown)
open Effects

/-! ## The activities of a request -/

section Activity
variable (api : IpfsApi) (services : Services)

/-- Attachments that are prepared for the assets, from what IPFS holds then and in the
order in which the fetches complete. -/
def AttachmentsOf (assetToMimeType : Option (List (String × String)))
    (assets : Option (List AssetDto)) (attachments : List ActivityContentAttachment) : Prop :=
  ∃ (ipfs : Ipfs) (fetches : List Fetch),
    fetches.Perm (Gather.completions AssetDto.fetched (assets.getD [])) ∧
      prepareAttachments api services ipfs assets assetToMimeType fetches = .ok attachments

def IconsOf (assetToMimeType : Option (List (String × String)))
    (icons : List AssetReferenceDto) (links : List ActivityContentImageLink) : Prop :=
  ∃ (ipfs : Ipfs) (fetches : List (AssetReferenceDto × ℕ)), fetches.Perm icons.zipIdx ∧
    prepareProfileIconAttachments api services ipfs icons assetToMimeType fetches = .ok links

def noteOf (content : NoteActivityDto) (attachments : List ActivityContentAttachment) :
    Option Json :=
  createNote (content.content.getD "") (services.parseDate (content.published.getD ""))
    content.name (prepareLocation content.location) (prepareTags content.tag) attachments

/-- The `profileActivity` of `processProfile`. -/
def profileOf (content : ProfileActivityDto) (attachments : List ActivityContentImageLink) :
    Json :=
  .object [("@context", some (.str "https://www.w3.org/ns/activitystreams")),
    ("type", some (.str "Profile")), ("name", content.name), ("published", content.published),
    ("location", some (prepareLocation content.location)), ("summary", content.summary),
    ("icon", some (.arr (attachments.map (·.json)))),
    ("tag", some (.arr ((prepareTags content.tag).map (·.json))))]

/-- An activity that a request leads to. -/
def ActivityOf (data : RequestJob) (activity : Json) : Prop :=
  match data.content with
  | .broadcast content | .reply _ content | .update _ _ content =>
      ∃ attachments, AttachmentsOf api services data.assetToMimeType content.assets attachments ∧
        noteOf services content attachments = some activity
  | .profile content =>
      ∃ attachments, IconsOf api services data.assetToMimeType (content.icon.getD [])
        attachments ∧ profileOf content attachments = activity
  | .reaction .. | .tombstone .. => False

end Activity

/-- What a reader gets to know of a request, its assets apart. -/
inductive Published where
  | note (content published : String) (name : Option Json) (location : Option LocationDto)
      (tag : List ActivityContentTag)
  | profile (name published summary : Option Json) (location : Option LocationDto)
      (tag : List ActivityContentTag)

/-- `none` for a request without an activity, and for one whose date is invalid. -/
def RequestTypeDto.published? (services : Services) : RequestTypeDto → Option Published
  | .broadcast content | .reply _ content | .update _ _ content =>
      (services.parseDate (content.published.getD "")).map fun date =>
        .note (content.content.getD "") (toISOString date) content.name content.location
          (prepareTags content.tag)
  | .profile content => some (.profile content.name content.published content.summary
      content.location (prepareTags content.tag))
  | .reaction .. | .tombstone .. => none

/-! ## Values in a request -/

def LocationDto.values (location : LocationDto) : List (Option Json) :=
  [location.name, location.accuracy, location.altitude, location.latitude, location.longitude,
    location.radius, location.units]

def TagDto.values (tag : TagDto) : List (Option Json) := [tag.name, tag.mentionedId]

def AssetReferenceDto.values (reference : AssetReferenceDto) : List (Option Json) :=
  [reference.height, reference.width, reference.duration]

def AssetDto.values (asset : AssetDto) : List (Option Json) :=
  asset.name :: (asset.references.getD []).flatMap (·.values)

def NoteActivityDto.values (content : NoteActivityDto) : List (Option Json) :=
  content.name :: ((content.tag.getD []).flatMap (·.values) ++
    (content.location.toList.flatMap (·.values) ++ (content.assets.getD []).flatMap (·.values)))

def ProfileActivityDto.values (content : ProfileActivityDto) : List (Option Json) :=
  content.name :: content.summary :: content.published ::
    ((content.tag.getD []).flatMap (·.values) ++
      (content.location.toList.flatMap (·.values) ++ (content.icon.getD []).flatMap (·.values)))

def RequestTypeDto.values : RequestTypeDto → List (Option Json)
  | .broadcast content | .reply _ content | .update _ _ content => content.values
  | .profile content => content.values
  | .reaction .. | .tombstone .. => []

/-- The values are such as `JSON.parse` yields, with numbers as they are written. -/
def Canonical (values : List (Option Json)) : Prop :=
  ∀ value ∈ values, ∀ json ∈ value, json.canonical id = true

instance (values : List (Option Json)) : Decidable (Canonical values) :=
  inferInstanceAs (Decidable (∀ value ∈ values, ∀ json ∈ value, json.canonical id = true))

/-! ## Activities are written as themselves -/

section Canonical

theorem Canonical.cons {value : Option Json} {values : List (Option Json)} :
    Canonical (value :: values) ↔ (∀ json ∈ value, json.canonical id = true) ∧ Canonical values :=
  List.forall_mem_cons

theorem Canonical.append {values more : List (Option Json)} :
    Canonical (values ++ more) ↔ Canonical values ∧ Canonical more :=
  List.forall_mem_append

theorem Canonical.flatMap {X : Type} {xs : List X} {f : X → List (Option Json)} :
    Canonical (xs.flatMap f) ↔ ∀ x ∈ xs, Canonical (f x) := by
  simp only [Canonical, List.mem_flatMap, forall_exists_index, and_imp]
  exact ⟨fun h x hx value hvalue => h value x hx hvalue, fun h value x hx => h x hx value⟩

theorem canonical_str (s : String) : (Json.str s).canonical id = true := rfl

theorem canonical_arr {X : Type} {xs : List X} {f : X → Json}
    (h : ∀ x ∈ xs, (f x).canonical id = true) : (Json.arr (xs.map f)).canonical id = true := by
  rw [Json.canonical, Json.canonicalElements_iff]
  exact List.forall_mem_map.mpr h

def ActivityContentTag.values : ActivityContentTag → List (Option Json)
  | .hashtag name => [name]
  | .mention name id => [name, id]

def ActivityContentImageLink.values (link : ActivityContentImageLink) : List (Option Json) :=
  [link.height, link.width]

def ActivityContentAttachment.values : ActivityContentAttachment → List (Option Json)
  | .link _ name => [name]
  | .image name url => name :: url.flatMap (·.values)
  | .video name url duration => name :: duration :: url.flatMap (·.values)
  | .audio name _ duration => [name, duration]

theorem canonical_tag {tag : ActivityContentTag} (h : Canonical tag.values) :
    tag.json.canonical id = true := by
  cases tag with
  | hashtag name =>
      refine Json.canonical_object (rfl : _ = ["name"]) (by decide +kernel) ?_
      simpa [ActivityContentTag.values, Canonical] using h
  | mention name id' =>
      refine Json.canonical_object (rfl : _ = ["name", "type", "id"]) (by decide +kernel) ?_
      simpa [ActivityContentTag.values, Canonical, canonical_str] using h

theorem canonical_strings (texts : List String) :
    (Json.arr (texts.map .str)).canonical id = true :=
  canonical_arr fun _ _ => canonical_str _

theorem canonical_imageLink {link : ActivityContentImageLink} (h : Canonical link.values) :
    link.json.canonical id = true := by
  refine Json.canonical_object
    (rfl : _ = ["mediaType", "hash", "height", "width", "type", "href"]) (by decide +kernel) ?_
  simpa [ActivityContentImageLink.values, Canonical, canonical_str, canonical_strings] using h

theorem canonical_audioLink (link : ActivityContentAudioLink) :
    link.json.canonical id = true := by
  refine Json.canonical_object (rfl : _ = ["mediaType", "hash", "type", "href"])
    (by decide +kernel) ?_
  simp [canonical_str, canonical_strings]

theorem canonical_attachment {attachment : ActivityContentAttachment}
    (h : Canonical attachment.values) : attachment.json.canonical id = true := by
  cases attachment with
  | link href name =>
      refine Json.canonical_object (rfl : _ = ["type", "href", "name"]) (by decide +kernel) ?_
      simpa [ActivityContentAttachment.values, Canonical, canonical_str] using h
  | image name url =>
      obtain ⟨hname, hurl⟩ := Canonical.cons.mp h
      have hlinks := canonical_arr fun link hlink =>
        canonical_imageLink (Canonical.flatMap.mp hurl link hlink)
      refine Json.canonical_object (rfl : _ = ["type", "name", "url"]) (by decide +kernel) ?_
      simpa [canonical_str, hlinks] using hname
  | video name url duration =>
      obtain ⟨hname, hrest⟩ := Canonical.cons.mp h
      obtain ⟨hduration, hurl⟩ := Canonical.cons.mp hrest
      have hlinks := canonical_arr fun link hlink =>
        canonical_imageLink (Canonical.flatMap.mp hurl link hlink)
      refine Json.canonical_object (rfl : _ = ["type", "name", "url", "duration"])
        (by decide +kernel) ?_
      simpa [canonical_str, hlinks] using And.intro hname hduration
  | audio name url duration =>
      have hlinks := canonical_arr fun link (_ : link ∈ url) => canonical_audioLink link
      refine Json.canonical_object (rfl : _ = ["type", "name", "url", "duration"])
        (by decide +kernel) ?_
      simpa [ActivityContentAttachment.values, Canonical, canonical_str, hlinks] using h

theorem canonical_location {location : Option LocationDto}
    (h : Canonical (location.toList.flatMap (·.values))) :
    (prepareLocation location).canonical id = true := by
  cases location with
  | none => rfl
  | some location =>
      have hvalues : Canonical location.values := Canonical.flatMap.mp h _ (.head _)
      simp only [LocationDto.values, Canonical.cons] at hvalues
      obtain ⟨hname, haccuracy, haltitude, hlatitude, hlongitude, hradius, hunits, -⟩ := hvalues
      refine Json.canonical_object (rfl : _ = ["latitude", "longitude", "radius", "altitude",
        "accuracy", "name", "units", "type"]) (by decide +kernel) ?_
      simpa [canonical_str] using
        (⟨hlatitude, hlongitude, hradius, haltitude, haccuracy, hname, hunits⟩ : _ ∧ _)

end Canonical

/-! ## What is prepared has the values of the request -/

section Prepared
variable {api : IpfsApi} {services : Services} {ipfs : Ipfs}
  {assetToMimeType : Option (List (String × String))}

theorem canonical_prepareTags {tagData : Option (List TagDto)}
    (h : Canonical ((tagData.getD []).flatMap (·.values))) :
    ∀ tag ∈ prepareTags tagData, Canonical tag.values := by
  intro tag htag
  obtain ⟨dto, hdto, rfl⟩ := List.mem_map.mp htag
  obtain ⟨hname, hid⟩ := Canonical.cons.mp (Canonical.flatMap.mp h dto hdto)
  split
  · exact Canonical.cons.mpr ⟨hname, fun _ hvalue => by cases hvalue⟩
  · exact Canonical.cons.mpr ⟨hname, hid⟩

theorem canonical_prepareImageLink {reference : AssetReferenceDto}
    (h : Canonical reference.values) {link : ActivityContentImageLink}
    (hlink : prepareImageLink api services ipfs assetToMimeType reference = .ok link) :
    Canonical link.values := by
  obtain ⟨_, _, hlink⟩ := of_bind_ok hlink
  cases hlink
  obtain ⟨hheight, hrest⟩ := Canonical.cons.mp h
  obtain ⟨hwidth, -⟩ := Canonical.cons.mp hrest
  exact Canonical.cons.mpr ⟨hheight, Canonical.cons.mpr ⟨hwidth, fun _ h => by cases h⟩⟩

theorem canonical_imageLinks {references : List AssetReferenceDto}
    (h : ∀ reference ∈ references, Canonical reference.values)
    {links : List ActivityContentImageLink}
    (hlinks : references.mapM (prepareImageLink api services ipfs assetToMimeType) = .ok links) :
    Canonical (links.flatMap (·.values)) := by
  refine Canonical.flatMap.mpr fun link hlink => ?_
  obtain ⟨reference, hreference, hprepare⟩ := of_mem_mapM_ok hlinks hlink
  exact canonical_prepareImageLink (h reference hreference) hprepare

theorem canonical_prepareAttachment {asset : AssetDto} {arrived : List AssetReferenceDto}
    (hname : ∀ json ∈ asset.name, json.canonical id = true)
    (harrived : ∀ reference ∈ arrived, Canonical reference.values)
    {attachment : ActivityContentAttachment}
    (h : prepareAttachment api services ipfs assetToMimeType asset arrived = .ok attachment) :
    Canonical attachment.values := by
  have hempty : ∀ json ∈ some (Json.str ""), json.canonical id = true := by
    rintro _ ⟨⟩
    exact canonical_str ""
  unfold prepareAttachment at h
  split at h
  · cases h
    exact Canonical.cons.mpr ⟨hname, fun _ h => by cases h⟩
  · obtain ⟨url, hurl, h⟩ := of_bind_ok h
    cases h
    exact Canonical.cons.mpr ⟨hname, canonical_imageLinks harrived hurl⟩
  · obtain ⟨url, hurl, h⟩ := of_bind_ok h
    cases h
    rw [videoDuration_eq]
    exact Canonical.cons.mpr
      ⟨hname, Canonical.cons.mpr ⟨hempty, canonical_imageLinks harrived hurl⟩⟩
  · obtain ⟨url, hurl, h⟩ := of_bind_ok h
    cases h
    rw [audioDuration_eq]
    exact Canonical.cons.mpr ⟨hname, Canonical.cons.mpr ⟨hempty, fun _ h => by cases h⟩⟩

/-- Every attachment is made of an asset and of its references. -/
theorem AttachmentsOf.canonical {assets : Option (List AssetDto)}
    {attachments : List ActivityContentAttachment}
    (h : AttachmentsOf api services assetToMimeType assets attachments)
    (hassets : Canonical ((assets.getD []).flatMap (·.values))) :
    ∀ attachment ∈ attachments, Canonical attachment.values := by
  obtain ⟨ipfs, fetches, hperm, hprepare⟩ := h
  obtain ⟨_, -, hprepare⟩ := of_bind_ok hprepare
  intro attachment hattachment
  obtain ⟨asset, hasset, hmade⟩ := of_mem_mapM_ok hprepare hattachment
  have hasset : asset ∈ (assets.getD []).zipIdx :=
    (Gather.tasks_run_perm hperm AssetDto.fetched_eq_nil_iff).mem_iff.mp hasset
  have hvalues := Canonical.flatMap.mp hassets _ (List.fst_mem_of_mem_zipIdx hasset)
  obtain ⟨hname, hreferences⟩ := Canonical.cons.mp hvalues
  refine canonical_prepareAttachment hname (fun reference hreference => ?_) hmade
  have hitems := (Gather.itemsOf_perm hperm hasset).map Prod.fst
  rw [List.zipIdx_map_fst] at hitems
  rw [pushAttachments, Gather.items_run] at hreference
  have hfetched := hitems.mem_iff.mp hreference
  refine Canonical.flatMap.mp hreferences reference ?_
  unfold AssetDto.fetched at hfetched
  split at hfetched
  · cases hfetched
  all_goals exact hfetched

theorem IconsOf.canonical {icons : List AssetReferenceDto}
    {links : List ActivityContentImageLink}
    (h : IconsOf api services assetToMimeType icons links)
    (hicons : Canonical (icons.flatMap (·.values))) :
    ∀ link ∈ links, Canonical link.values := by
  obtain ⟨ipfs, fetches, hperm, hprepare⟩ := h
  obtain ⟨_, -, hprepare⟩ := of_bind_ok hprepare
  intro link hlink
  obtain ⟨icon, hicon, hmade⟩ := of_mem_mapM_ok hprepare hlink
  have hicon := List.fst_mem_of_mem_zipIdx (hperm.mem_iff.mp hicon)
  exact canonical_prepareImageLink (Canonical.flatMap.mp hicons _ hicon) hmade

theorem canonical_noteOf {content : NoteActivityDto} (h : Canonical content.values)
    {attachments : List ActivityContentAttachment}
    (hattachments : ∀ attachment ∈ attachments, Canonical attachment.values) {note : Json}
    (hnote : noteOf services content attachments = some note) : note.canonical id = true := by
  obtain ⟨date, -, rfl⟩ := Option.map_eq_some_iff.mp hnote
  obtain ⟨hname, hrest⟩ := Canonical.cons.mp h
  obtain ⟨htag, hrest⟩ := Canonical.append.mp hrest
  obtain ⟨hlocation, -⟩ := Canonical.append.mp hrest
  have htags := canonical_arr fun tag hmem => canonical_tag (canonical_prepareTags htag tag hmem)
  have hattachment := canonical_arr fun attachment hmem =>
    canonical_attachment (hattachments attachment hmem)
  refine Json.canonical_object (rfl : _ = ["@context", "type", "mediaType", "published",
    "content", "name", "location", "tag", "attachment"]) (by decide +kernel) ?_
  simpa [canonical_str, htags, hattachment, canonical_location hlocation] using hname

theorem canonical_profileOf {content : ProfileActivityDto} (h : Canonical content.values)
    {attachments : List ActivityContentImageLink}
    (hattachments : ∀ link ∈ attachments, Canonical link.values) :
    (profileOf content attachments).canonical id = true := by
  obtain ⟨hname, hrest⟩ := Canonical.cons.mp h
  obtain ⟨hsummary, hrest⟩ := Canonical.cons.mp hrest
  obtain ⟨hpublished, hrest⟩ := Canonical.cons.mp hrest
  obtain ⟨htag, hrest⟩ := Canonical.append.mp hrest
  obtain ⟨hlocation, -⟩ := Canonical.append.mp hrest
  have htags := canonical_arr fun tag hmem => canonical_tag (canonical_prepareTags htag tag hmem)
  have hicons := canonical_arr fun link hmem => canonical_imageLink (hattachments link hmem)
  refine Json.canonical_object (rfl : _ = ["@context", "type", "name", "published", "location",
    "summary", "icon", "tag"]) (by decide +kernel) ?_
  simpa [canonical_str, htags, hicons, canonical_location hlocation] using
    (⟨hname, hpublished, hsummary⟩ : _ ∧ _)

theorem NoteActivityDto.canonical_assets {content : NoteActivityDto}
    (h : Canonical content.values) :
    Canonical ((content.assets.getD []).flatMap (·.values)) :=
  (Canonical.append.mp (Canonical.append.mp (Canonical.cons.mp h).2).2).2

theorem ProfileActivityDto.canonical_icon {content : ProfileActivityDto}
    (h : Canonical content.values) :
    Canonical ((content.icon.getD []).flatMap (·.values)) := by
  have hrest := (Canonical.cons.mp (Canonical.cons.mp (Canonical.cons.mp h).2).2).2
  exact (Canonical.append.mp (Canonical.append.mp hrest).2).2

theorem ActivityOf.canonical {data : RequestJob} {activity : Json}
    (h : ActivityOf api services data activity) (hvalues : Canonical data.content.values) :
    activity.canonical id = true := by
  obtain ⟨id, dsnpUserId, assetToMimeType, content⟩ := data
  cases content with
  | broadcast content | reply _ content | update _ _ content =>
      obtain ⟨attachments, hattachments, hnote⟩ := h
      exact canonical_noteOf hvalues
        (hattachments.canonical (NoteActivityDto.canonical_assets hvalues)) hnote
  | profile content =>
      obtain ⟨attachments, hattachments, rfl⟩ := h
      exact canonical_profileOf hvalues
        (hattachments.canonical (ProfileActivityDto.canonical_icon hvalues))
  | reaction => cases h
  | tombstone => cases h

end Prepared

/-! ## What is written can be read back -/

section Readable

theorem toList_loop (bytes : ByteArray) (i : ℕ) (front : List UInt8) :
    ByteArray.toList.loop bytes i front = front.reverse ++ bytes.data.toList.drop i := by
  fun_induction ByteArray.toList.loop bytes i front with
  | case1 i front hi ih =>
      have hlt : i < bytes.data.toList.length := hi
      rw [ih, List.reverse_cons, List.append_assoc, List.drop_eq_getElem_cons hlt]
      have hget : bytes.get! i = bytes.data.toList[i] := getElem!_pos bytes.data i hi
      rw [hget, List.singleton_append]
  | case2 i front hi =>
      have hle : bytes.data.toList.length ≤ i := Nat.le_of_not_lt hi
      rw [List.drop_eq_nil_of_le hle, List.append_nil]

theorem toUTF8_toList_injective : Function.Injective fun s : String => s.toUTF8.toList := by
  intro s other h
  have hbytes : s.toUTF8.data.toList = other.toUTF8.data.toList := by
    simpa [ByteArray.toList, toList_loop] using h
  exact String.toByteArray_inj.mp (ByteArray.ext (Array.toList_inj.mp hbytes))

theorem bufferOf_injective {activity other : Json} (h : activity.canonical id = true)
    (hother : other.canonical id = true) (heq : bufferOf activity = bufferOf other) :
    activity = other :=
  Json.eq_of_stringify_eq h hother (toUTF8_toList_injective heq)

theorem ActivityContentTag.json_injective : Function.Injective ActivityContentTag.json := by
  -- A hashtag is written like a mention whose other fields are undefined.
  have hashtag_eq : ∀ name, (ActivityContentTag.hashtag name).json =
      .object [("name", name), ("type", none), ("id", none)] := fun name => by cases name <;> rfl
  intro tag other h
  cases tag with
  | hashtag name =>
      cases other with
      | hashtag name' =>
          have hfields := Json.eq_of_object_eq h rfl (by simp)
          simpa using hfields
      | mention name' id =>
          rw [hashtag_eq] at h
          have hfields := Json.eq_of_object_eq h rfl (by simp)
          simp at hfields
  | mention name id =>
      cases other with
      | hashtag name' =>
          rw [hashtag_eq] at h
          have hfields := Json.eq_of_object_eq h rfl (by simp)
          simp at hfields
      | mention name' id' =>
          have hfields := Json.eq_of_object_eq h rfl (by simp)
          simpa using hfields

theorem prepareLocation_injective : Function.Injective prepareLocation := by
  intro location other h
  cases location with
  | none =>
      cases other with
      | none => rfl
      | some other => cases h
  | some location =>
      cases other with
      | none => cases h
      | some other =>
          have hfields := Json.eq_of_object_eq h rfl (by simp)
          simp only [List.cons.injEq, Prod.mk.injEq, true_and, and_true] at hfields
          obtain ⟨hlatitude, hlongitude, hradius, haltitude, haccuracy, hname, hunits⟩ := hfields
          obtain ⟨name, accuracy, altitude, latitude, longitude, radius, units⟩ := location
          obtain ⟨name', accuracy', altitude', latitude', longitude', radius', units'⟩ := other
          simp_all

variable {services : Services}

/-- The note fixes what the request says. -/
theorem noteOf_injective {content other : NoteActivityDto}
    {attachments attachments' : List ActivityContentAttachment} {note : Json}
    (h : noteOf services content attachments = some note)
    (hother : noteOf services other attachments' = some note) :
    (services.parseDate (content.published.getD "")).map toISOString =
      (services.parseDate (other.published.getD "")).map toISOString ∧
    content.content.getD "" = other.content.getD "" ∧ content.name = other.name ∧
      content.location = other.location ∧ prepareTags content.tag = prepareTags other.tag := by
  obtain ⟨date, hdate, hnote⟩ := Option.map_eq_some_iff.mp h
  obtain ⟨date', hdate', hnote'⟩ := Option.map_eq_some_iff.mp hother
  have hfields := Json.eq_of_object_eq (hnote.trans hnote'.symm) (by simp) (by simp)
  simp only [List.cons.injEq, Prod.mk.injEq, true_and, and_true, Option.some.injEq,
    Json.str.injEq, Json.arr.injEq] at hfields
  obtain ⟨hpublished, hcontent, hname, hlocation, htag, -⟩ := hfields
  rw [hdate, hdate', Option.map_some, Option.map_some, hpublished]
  exact ⟨rfl, hcontent, hname, prepareLocation_injective hlocation,
    List.map_injective_iff.mpr ActivityContentTag.json_injective htag⟩

theorem profileOf_injective {content other : ProfileActivityDto}
    {attachments attachments' : List ActivityContentImageLink}
    (h : profileOf content attachments = profileOf other attachments') :
    content.name = other.name ∧ content.published = other.published ∧
      content.summary = other.summary ∧ content.location = other.location ∧
        prepareTags content.tag = prepareTags other.tag := by
  have hfields := Json.eq_of_object_eq h rfl (by simp)
  simp only [List.cons.injEq, Prod.mk.injEq, true_and, and_true, Option.some.injEq,
    Json.arr.injEq] at hfields
  obtain ⟨hname, hpublished, hlocation, hsummary, -, htag⟩ := hfields
  exact ⟨hname, hpublished, hsummary, prepareLocation_injective hlocation,
    List.map_injective_iff.mpr ActivityContentTag.json_injective htag⟩

/-- A note is no profile. -/
theorem noteOf_ne_profileOf {content : NoteActivityDto} {other : ProfileActivityDto}
    {attachments : List ActivityContentAttachment} {icons : List ActivityContentImageLink} :
    noteOf services content attachments ≠ some (profileOf other icons) := by
  intro h
  obtain ⟨date, -, hnote⟩ := Option.map_eq_some_iff.mp h
  simp [profileOf, Json.object_cons] at hnote

/-- An activity is a note or a profile. -/
theorem ActivityOf.cases {api : IpfsApi} {data : RequestJob} {activity : Json}
    (h : ActivityOf api services data activity) :
    (∃ content attachments, noteOf services content attachments = some activity ∧
      data.content.published? services = (services.parseDate (content.published.getD "")).map
        fun date => .note (content.content.getD "") (toISOString date) content.name
          content.location (prepareTags content.tag)) ∨
    ∃ content attachments, profileOf content attachments = activity ∧
      data.content.published? services = some (.profile content.name content.published
        content.summary content.location (prepareTags content.tag)) := by
  obtain ⟨id, dsnpUserId, assetToMimeType, content⟩ := data
  cases content with
  | broadcast content | reply _ content | update _ _ content =>
      obtain ⟨attachments, -, hnote⟩ := h
      exact .inl ⟨content, attachments, hnote, rfl⟩
  | profile content =>
      obtain ⟨attachments, -, hprofile⟩ := h
      exact .inr ⟨content, attachments, hprofile, rfl⟩
  | reaction => cases h
  | tombstone => cases h

/-- Requests that lead to one activity say the same. -/
theorem ActivityOf.published?_eq {api : IpfsApi} {data other : RequestJob} {activity : Json}
    (h : ActivityOf api services data activity) (hother : ActivityOf api services other activity) :
    data.content.published? services = other.content.published? services := by
  rcases h.cases with ⟨content, attachments, hnote, heq⟩ | ⟨content, icons, hprofile, heq⟩
  · rcases hother.cases with ⟨content', attachments', hnote', heq'⟩ | ⟨content', icons', rfl, _⟩
    · obtain ⟨hpublished, hcontent, hname, hlocation, htag⟩ := noteOf_injective hnote hnote'
      rw [heq, heq', hcontent, hname, hlocation, htag]
      have hmap := congrArg (Option.map fun text => Published.note (content'.content.getD "") text
        content'.name content'.location (prepareTags content'.tag)) hpublished
      rwa [Option.map_map, Option.map_map] at hmap
    · exact absurd hnote noteOf_ne_profileOf
  · rcases hother.cases with
      ⟨content', attachments', hnote', _⟩ | ⟨content', icons', hprofile', heq'⟩
    · exact absurd (hprofile ▸ hnote') noteOf_ne_profileOf
    · obtain ⟨hname, hpublished, hsummary, hlocation, htag⟩ :=
        profileOf_injective (hprofile.trans hprofile'.symm)
      rw [heq, heq', hname, hpublished, hsummary, hlocation, htag]

end Readable

end ContentPublishing.Announcements
