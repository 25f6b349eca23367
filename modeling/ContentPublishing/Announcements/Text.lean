import ContentPublishing.Announcements.Processor
import ContentPublishing.Lib.JsonText

/-!
# Announcements as JSON

The object that a queue holds for an announcement, with its keys in the order in which
the `create` functions write them, and what a service reads back from it.
-/
namespace ContentPublishing.Announcements

/-- The values of the enumeration. -/
def AnnouncementType.toNat : AnnouncementType → ℕ
  | .tombstone => 0
  | .broadcast => 2
  | .reply => 3
  | .reaction => 4
  | .profile => 5
  | .update => 6
  | .publicFollows => 113

def AnnouncementType.ofNat? (n : ℕ) : Option AnnouncementType :=
  [.tombstone, .broadcast, .reply, .reaction, .profile, .update, .publicFollows].find?
    (·.toNat = n)

theorem AnnouncementType.ofNat?_toNat (type : AnnouncementType) :
    ofNat? type.toNat = some type := by
  cases type <;> rfl

theorem AnnouncementType.toNat_le (type : AnnouncementType) : type.toNat ≤ 113 := by
  cases type <;> decide

def AnnouncementFields.type : AnnouncementFields → AnnouncementType
  | .tombstone .. => .tombstone
  | .broadcast .. => .broadcast
  | .reply .. => .reply
  | .reaction .. => .reaction
  | .profile .. => .profile
  | .update .. => .update

/-! What is read under a key. -/

section Members
variable (members : List (String × Json))

def text? (key : String) : Option String := (members.lookup key).bind Json.string?

def number? (key : String) : Option ℕ := (members.lookup key).bind Json.natural?

def type? (key : String) : Option AnnouncementType :=
  (number? members key).bind AnnouncementType.ofNat?

def AnnouncementFields.ofMembers? : AnnouncementType → Option AnnouncementFields
  | .tombstone => do
      return .tombstone (← type? members "targetAnnouncementType")
        (← text? members "targetContentHash")
  | .broadcast => return .broadcast (← text? members "contentHash") (← text? members "url")
  | .reply => do
      return .reply (← text? members "contentHash") (← text? members "inReplyTo")
        (← text? members "url")
  | .reaction => do
      return .reaction (← text? members "emoji") (← text? members "inReplyTo")
        (← number? members "apply")
  | .profile => return .profile (← text? members "contentHash") (← text? members "url")
  | .update => do
      return .update (← text? members "contentHash") (← type? members "targetAnnouncementType")
        (← text? members "targetContentHash") (← text? members "url")
  | .publicFollows => none

end Members

namespace Announcement

def members : Announcement → List (String × Json)
  | ⟨fromId, .tombstone targetType targetContentHash⟩ =>
      [("announcementType", .natural AnnouncementType.tombstone.toNat),
        ("targetAnnouncementType", .natural targetType.toNat),
        ("targetContentHash", .str targetContentHash), ("fromId", .str fromId)]
  | ⟨fromId, .broadcast contentHash url⟩ =>
      [("announcementType", .natural AnnouncementType.broadcast.toNat),
        ("contentHash", .str contentHash), ("fromId", .str fromId), ("url", .str url)]
  | ⟨fromId, .reply contentHash inReplyTo url⟩ =>
      [("announcementType", .natural AnnouncementType.reply.toNat),
        ("contentHash", .str contentHash), ("fromId", .str fromId),
        ("inReplyTo", .str inReplyTo), ("url", .str url)]
  | ⟨fromId, .reaction emoji inReplyTo apply⟩ =>
      [("announcementType", .natural AnnouncementType.reaction.toNat), ("emoji", .str emoji),
        ("apply", .natural apply), ("fromId", .str fromId), ("inReplyTo", .str inReplyTo)]
  | ⟨fromId, .profile contentHash url⟩ =>
      [("announcementType", .natural AnnouncementType.profile.toNat),
        ("contentHash", .str contentHash), ("fromId", .str fromId), ("url", .str url)]
  | ⟨fromId, .update contentHash targetType targetContentHash url⟩ =>
      [("announcementType", .natural AnnouncementType.update.toNat), ("fromId", .str fromId),
        ("contentHash", .str contentHash), ("targetAnnouncementType", .natural targetType.toNat),
        ("targetContentHash", .str targetContentHash), ("url", .str url)]

def json (announcement : Announcement) : Json := .obj announcement.members

/-- The announcement that an object is, whatever the order of its keys. -/
def ofJson? : Json → Option Announcement
  | .obj members => do
      return ⟨← text? members "fromId",
        ← AnnouncementFields.ofMembers? members (← type? members "announcementType")⟩
  | _ => none

theorem type?_members (announcement : Announcement) :
    type? announcement.members "announcementType" = some announcement.fields.type := by
  obtain ⟨fromId, fields⟩ := announcement
  cases fields <;>
    simp [members, AnnouncementFields.type, type?, number?, AnnouncementType.ofNat?_toNat]

theorem text?_members (announcement : Announcement) :
    text? announcement.members "fromId" = some announcement.fromId := by
  obtain ⟨fromId, fields⟩ := announcement
  cases fields <;> simp [members, text?, List.lookup_cons]

theorem ofMembers?_members (announcement : Announcement) :
    AnnouncementFields.ofMembers? announcement.members announcement.fields.type =
      some announcement.fields := by
  obtain ⟨fromId, fields⟩ := announcement
  cases fields <;>
    simp [members, AnnouncementFields.type, AnnouncementFields.ofMembers?, type?, number?, text?,
      List.lookup_cons, AnnouncementType.ofNat?_toNat]

theorem ofJson?_json (announcement : Announcement) :
    ofJson? announcement.json = some announcement := by
  simp only [json, ofJson?, text?_members, type?_members, ofMembers?_members, bind, Option.bind,
    pure]

theorem ordered_members (announcement : Announcement) :
    Json.ordered (announcement.members.map Prod.fst) = true := by
  obtain ⟨fromId, fields⟩ := announcement
  cases fields <;> simp only [members, List.map_cons, List.map_nil] <;> decide +kernel

/-- The number that the author of the request chose is below the limit. -/
def Below (limit : ℕ) (announcement : Announcement) : Prop :=
  match announcement.fields with
  | .reaction _ _ apply => apply < limit
  | _ => True

theorem canonical_json {number : String → String} {limit : ℕ} {announcement : Announcement}
    (h : announcement.Below limit) (htype : 113 < limit)
    (hnumber : ∀ n < limit, number (Nat.repr n) = Nat.repr n) :
    announcement.json.canonical number = true := by
  have hnatural : ∀ n < limit, (Json.natural n).canonical number = true := fun n hn =>
    Json.canonical_natural (hnumber n hn)
  have htype : ∀ type : AnnouncementType, (Json.natural type.toNat).canonical number = true :=
    fun type => hnatural _ (type.toNat_le.trans_lt htype)
  have hstr : ∀ s : String, (Json.str s).canonical number = true := fun _ => rfl
  rw [json, Json.canonical, ordered_members, Bool.true_and, Json.canonicalFields_iff]
  obtain ⟨fromId, fields⟩ := announcement
  cases fields with
  | reaction emoji inReplyTo apply => simp [members, htype, hstr, hnatural apply h]
  | _ => simp [members, htype, hstr]

end Announcement

end ContentPublishing.Announcements
