import DocMerge.Data.Value
import DocMerge.Message.Address

/-!
# Records of messages

A record takes down the messages that are sent, so that one can ask afterwards which were. Only
messages with an address are taken down.
-/

namespace DocMerge.Message

structure Sent where
  level : String
  address : String
  arguments : Data.Table

abbrev Record := List Sent

inductive Unexpected
  | notSent (address : String) (addresses : List String)
  | sent (address : String)

def Unexpected.message : Unexpected → String
  | notSent address addresses =>
    "Message with ID '" ++ address ++ "' was not sent.\nCaptured IDs: " ++
      (Data.Value.quoted (.list (addresses.map .text)))
  | sent address => "Message with ID '" ++ address ++ "' was sent."

namespace Record

def addresses (r : Record) (level : Option String) : List String :=
  (r.filter (fun m => level.all (· == m.level))).map (·.address)

def send (r : Record) (level : String) (address : Address) (arguments : Data.Table) : Record :=
  r ++ [⟨level, address.toString, arguments⟩]

def expectSent (r : Record) (address : Address) (level : Option String) : Except Unexpected Unit :=
  if (r.addresses level).contains address.toString then .ok ()
  else .error (.notSent address.toString (r.addresses none))

def expectNotSent (r : Record) (address : Address) : Except Unexpected Unit :=
  if (r.addresses none).contains address.toString then .error (.sent address.toString) else .ok ()

end Record

end DocMerge.Message
