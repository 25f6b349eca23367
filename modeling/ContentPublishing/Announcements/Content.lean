import ContentPublishing.Common.Interfaces

/-!
# Requested content and published content

The bodies of the requests, and the activities that are pinned for them. Optional
fields that are only copied are JSON values; a missing one is not written.
-/
namespace ContentPublishing.Announcements

/-! ## Requests -/

inductive TagTypeDto where
  | mention | hashtag
  deriving DecidableEq, Repr

structure TagDto where
  type : TagTypeDto
  name : Option Json
  mentionedId : Option Json

structure LocationDto where
  name : Option Json
  accuracy : Option Json
  altitude : Option Json
  latitude : Option Json
  longitude : Option Json
  radius : Option Json
  units : Option Json

structure AssetReferenceDto where
  referenceId : String
  height : Option Json
  width : Option Json
  duration : Option Json

inductive AttachmentTypeDto where
  | link | image | audio | video
  deriving DecidableEq, Repr

structure AssetDto where
  type : AttachmentTypeDto
  references : Option (List AssetReferenceDto)
  name : Option Json
  href : Option String

structure NoteActivityDto where
  name : Option Json
  tag : Option (List TagDto)
  location : Option LocationDto
  content : Option String
  published : Option String
  assets : Option (List AssetDto)

structure ProfileActivityDto where
  name : Option Json
  tag : Option (List TagDto)
  location : Option LocationDto
  icon : Option (List AssetReferenceDto)
  summary : Option Json
  published : Option Json

inductive ModifiableAnnouncementTypeDto where
  | broadcast | reply
  deriving DecidableEq, Repr

/-- The body of a request, by the endpoint that took it. -/
inductive RequestTypeDto where
  | broadcast (content : NoteActivityDto)
  | reply (inReplyTo : String) (content : NoteActivityDto)
  | reaction (emoji : String) (apply : ℕ) (inReplyTo : String)
  | update (targetContentHash : Option String)
      (targetAnnouncementType : ModifiableAnnouncementTypeDto) (content : NoteActivityDto)
  | tombstone (targetContentHash : Option String)
      (targetAnnouncementType : ModifiableAnnouncementTypeDto)
  | profile (profile : ProfileActivityDto)

namespace RequestTypeDto

def announcementType : RequestTypeDto → AnnouncementTypeDto
  | .broadcast .. => .broadcast
  | .reply .. => .reply
  | .reaction .. => .reaction
  | .update .. => .update
  | .tombstone .. => .tombstone
  | .profile .. => .profile

/-- The assets of the note. -/
def assets : RequestTypeDto → List AssetDto
  | .broadcast note | .reply _ note | .update _ _ note => note.assets.getD []
  | .reaction .. | .tombstone .. | .profile .. => []

/-- The icons of the profile. -/
def icons : RequestTypeDto → List AssetReferenceDto
  | .profile dto => dto.icon.getD []
  | .broadcast .. | .reply .. | .reaction .. | .update .. | .tombstone .. => []

end RequestTypeDto

/-- An `IRequestJob` with the body of the endpoint that enqueued it. -/
structure RequestJob where
  id : String
  dsnpUserId : String
  assetToMimeType : Option (List (String × String))
  content : RequestTypeDto

/-! ## Activities -/

inductive ActivityContentTag where
  | hashtag (name : Option Json)
  | mention (name id : Option Json)

def ActivityContentTag.json : ActivityContentTag → Json
  | .hashtag name => .object [("name", name)]
  | .mention name id => .object [("name", name), ("type", some (.str "Mention")), ("id", id)]

/-- The link to an image or a video. -/
structure ActivityContentImageLink where
  mediaType : Option String
  hash : List String
  height : Option Json
  width : Option Json
  href : String

def ActivityContentImageLink.json (link : ActivityContentImageLink) : Json :=
  .object [("mediaType", link.mediaType.map .str), ("hash", some (.arr (link.hash.map .str))),
    ("height", link.height), ("width", link.width), ("type", some (.str "Link")),
    ("href", some (.str link.href))]

structure ActivityContentAudioLink where
  mediaType : Option String
  hash : List String
  href : String

def ActivityContentAudioLink.json (link : ActivityContentAudioLink) : Json :=
  .object [("mediaType", link.mediaType.map .str), ("hash", some (.arr (link.hash.map .str))),
    ("type", some (.str "Link")), ("href", some (.str link.href))]

inductive ActivityContentAttachment where
  | link (href : String) (name : Option Json)
  | image (name : Option Json) (url : List ActivityContentImageLink)
  | video (name : Option Json) (url : List ActivityContentImageLink) (duration : Option Json)
  | audio (name : Option Json) (url : List ActivityContentAudioLink) (duration : Option Json)

def ActivityContentAttachment.json : ActivityContentAttachment → Json
  | .link href name =>
      .object [("type", some (.str "Link")), ("href", some (.str href)), ("name", name)]
  | .image name url =>
      .object [("type", some (.str "Image")), ("name", name),
        ("url", some (.arr (url.map (·.json))))]
  | .video name url duration =>
      .object [("type", some (.str "Video")), ("name", name),
        ("url", some (.arr (url.map (·.json)))), ("duration", duration)]
  | .audio name url duration =>
      .object [("type", some (.str "Audio")), ("name", name),
        ("url", some (.arr (url.map (·.json)))), ("duration", duration)]

/-- `null` without location data. -/
def prepareLocation : Option LocationDto → Json
  | none => .null
  | some location =>
      .object [("latitude", location.latitude), ("longitude", location.longitude),
        ("radius", location.radius), ("altitude", location.altitude),
        ("accuracy", location.accuracy), ("name", location.name), ("units", location.units),
        ("type", some (.str "Place"))]

/-! ## Dates -/

/-- Milliseconds since 1970. -/
abbrev Date := ℤ

/-- Year, month and day of a day since 1970 in the Gregorian calendar. The year is
counted from March of year zero. -/
def civil (day : ℤ) : ℤ × ℤ × ℤ :=
  let shifted := day + 719468
  let era := shifted / 146097
  let dayOfEra := shifted % 146097
  let yearOfEra := (dayOfEra - dayOfEra / 1460 + dayOfEra / 36524 - dayOfEra / 146096) / 365
  let dayOfYear := dayOfEra - (365 * yearOfEra + yearOfEra / 4 - yearOfEra / 100)
  let month := (5 * dayOfYear + 2) / 153
  let year := yearOfEra + era * 400
  (if month < 10 then year else year + 1, if month < 10 then month + 3 else month - 9,
    dayOfYear - (153 * month + 2) / 5 + 1)

def padded (width : ℕ) (n : ℕ) : String :=
  let digits := Nat.toDigits 10 n
  String.ofList (List.replicate (width - digits.length) '0' ++ digits)

/-- A year outside of `0 .. 9999` has a sign and six digits. -/
def yearText (year : ℤ) : String :=
  if 0 ≤ year ∧ year ≤ 9999 then padded 4 year.toNat
  else (if year < 0 then "-" else "+") ++ padded 6 year.natAbs

def toISOString (date : Date) : String :=
  let (year, month, day) := civil (date / 86400000)
  let time := (date % 86400000).toNat
  yearText year ++ "-" ++ padded 2 month.toNat ++ "-" ++ padded 2 day.toNat ++ "T" ++
    padded 2 (time / 3600000) ++ ":" ++ padded 2 (time / 60000 % 60) ++ ":" ++
    padded 2 (time / 1000 % 60) ++ "." ++ padded 3 (time % 1000) ++ "Z"

/-- The activity with the given fields of the request. An invalid date has no text. -/
def createNote (content : String) (published : Option Date) (name : Option Json) (location : Json)
    (tag : List ActivityContentTag) (attachment : List ActivityContentAttachment) : Option Json :=
  published.map fun date => .object
    [("@context", some (.str "https://www.w3.org/ns/activitystreams")),
      ("type", some (.str "Note")), ("mediaType", some (.str "text/plain")),
      ("published", some (.str (toISOString date))), ("content", some (.str content)),
      ("name", name), ("location", some location), ("tag", some (.arr (tag.map (·.json)))),
      ("attachment", some (.arr (attachment.map (·.json))))]

example : toISOString 1609459200000 = "2021-01-01T00:00:00.000Z" := by decide +kernel

end ContentPublishing.Announcements
