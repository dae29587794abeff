import Opensquid.Chat.InboxDrain
import Opensquid.Lib.JsonFields
import Opensquid.Lib.JsonParse

/-!
# The rows of an inbox file

What the daemon writes for an inbound message, and the schema that reads it.
-/

namespace Opensquid.Chat.Inbox

open Opensquid.Lib
open Opensquid.Lib.Json (field stringField nonempty optionalString boolField strict isOne)

structure InboxMedia where
  kind : MediaKind
  path : String
  caption : Option String
  mime : Option String
  deriving DecidableEq

structure InboxRow where
  id : String
  threadId : Option String
  platform : Platform
  channel : String
  sender : String
  senderId : String
  text : String
  receivedAt : String
  enqueuedAt : String
  mentionsBot : Bool
  media : Option (List InboxMedia)
  deriving DecidableEq

def mediaKindSchema (text : String) : Option MediaKind :=
  [MediaKind.photo, .document].find? (·.text = text)

def platformSchema (text : String) : Option Platform :=
  [Platform.telegram, .discord, .slack].find? (·.text = text)

def InboxMedia.safeParse : Json → Option InboxMedia
  | .obj fields =>
      if strict ["kind", "path", "caption", "mime"] fields then do
        let kind ← (stringField fields "kind").bind mediaKindSchema
        let path ← nonempty fields "path"
        let caption ← optionalString fields "caption"
        let mime ← optionalString fields "mime"
        return { kind, path, caption, mime }
      else none
  | _ => none

/-- `z.array(InboxMedia).optional()`. -/
def mediaSchema : Option Json → Option (Option (List InboxMedia))
  | none => some none
  | some (.arr items) => (items.mapM InboxMedia.safeParse).map some
  | some _ => none

/-- `z.literal(1)`. -/
def isVersion : Option Json → Bool
  | some (.num text) => isOne text
  | _ => false

def rowKeys : List String :=
  ["v", "id", "thread_id", "platform", "channel", "sender", "sender_id", "text", "received_at",
    "enqueued_at", "mentions_bot", "media"]

def InboxRow.safeParse : Json → Option InboxRow
  | .obj fields =>
      if strict rowKeys fields && isVersion (field fields "v") then do
        let id ← nonempty fields "id"
        let threadId ← optionalString fields "thread_id"
        let platform ← (stringField fields "platform").bind platformSchema
        let channel ← stringField fields "channel"
        let sender ← stringField fields "sender"
        let senderId ← stringField fields "sender_id"
        let text ← stringField fields "text"
        let receivedAt ← stringField fields "received_at"
        let enqueuedAt ← stringField fields "enqueued_at"
        let mentionsBot ← boolField fields "mentions_bot"
        let media ← mediaSchema (field fields "media")
        return { id, threadId, platform, channel, sender, senderId, text, receivedAt, enqueuedAt,
                 mentionsBot, media }
      else none
  | _ => none

/-- The row of a line, if it has one. -/
def rowOf (line : List Char) : Option InboxRow := (Json.parse line).bind InboxRow.safeParse

/-- A row of the daemon with this text. -/
def sampleRow (text : String) : List Char :=
  Json.stringify <| .obj [("v", .num "1"), ("id", .str "7"), ("platform", .str "telegram"),
    ("channel", .str "c"), ("sender", .str "ann"), ("sender_id", .str "3"), ("text", .str text),
    ("received_at", .str ""), ("enqueued_at", .str ""), ("mentions_bot", .bool false)]

def sampleOf (text : String) : InboxRow where
  id := "7"
  threadId := none
  platform := .telegram
  channel := "c"
  sender := "ann"
  senderId := "3"
  text := text
  receivedAt := ""
  enqueuedAt := ""
  mentionsBot := false
  media := none

example : rowOf (sampleRow "hé") = some (sampleOf "hé") := by decide +kernel

end Opensquid.Chat.Inbox
