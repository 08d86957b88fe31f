import Dataflow.Device.Framer
/-!
# Device feeds

A feed runs beside the program, reads a device piece by piece through a framer, and publishes the
last reading on a channel. It ends when the device does, when the device or the feed fails, or when
it is told to stop; what comes later is ignored. A listener sees each publication at most once and
always the newest, and learns of the end only after it has seen the last one.
-/
set_option autoImplicit false

namespace Dataflow

inductive FeedEnd where
  /-- The device had no more bytes, or the feed was told to stop. -/
  | done
  /-- Reading failed, with the device's own words. -/
  | readFailed (message : String)
  /-- The feed itself broke down. -/
  | aborted
deriving DecidableEq, Repr

/-- Why waiting for the end of a feed fails. -/
inductive FeedError where
  | readFailed (message : String)
  | aborted
deriving DecidableEq, Repr

def FeedError.message : FeedError → String
  | readFailed m => "Device stream read failed: " ++ m
  | aborted => "Device reader task ended abnormally"

inductive FeedEvent where
  | data (bytes : List UInt8)
  | fail (message : String)
  | breakdown
  | close
  | stop
deriving DecidableEq, Repr

/-! ## Channels -/

/-- What a listener learns when it asks for news. -/
inductive News where
  | pending
  | reading (digits : Option String)
  | ended
deriving DecidableEq, Repr

/-- A channel that keeps the last value sent, and its one listener. -/
structure Channel where
  value : Option String := none
  /-- The number of values sent. -/
  version : Nat := 0
  /-- The last version that the listener has seen. -/
  seen : Nat := 0
  closed : Bool := false
deriving DecidableEq, Repr

namespace Channel

def send (c : Channel) (value : Option String) : Channel :=
  { c with value := value, version := c.version + 1 }

def close (c : Channel) : Channel :=
  { c with closed := true }

/-- What the listener learns now, and the channel after it has. A value that it has not seen comes
before the end. -/
def listen (c : Channel) : News × Channel :=
  if c.seen < c.version then (.reading c.value, { c with seen := c.version })
  else if c.closed then (.ended, c)
  else (.pending, c)

end Channel

/-! ## Feeds -/

/-- The state of a feed: its framer, the channel on which it publishes, and how it has ended. -/
structure Feed where
  framer : Framer := {}
  channel : Channel := {}
  ended : Option FeedEnd := none
deriving DecidableEq, Repr

namespace Feed

/-- The number of bytes that one read takes at most. -/
def readSize : Nat := 1024

/-- The bytes cut into reads of at most `size` bytes, at most `fuel` of them. -/
def reads (size : Nat) : Nat → List UInt8 → List (List UInt8)
  | 0, _ => []
  | _, [] => []
  | fuel + 1, bytes => bytes.take size :: reads size fuel (bytes.drop size)

/-- The feed after one read. A read that completes a reading publishes it. -/
def read (f : Feed) (chunk : List UInt8) : Feed :=
  match f.framer.push chunk with
  | (framer, true) => { f with framer := framer, channel := f.channel.send framer.value }
  | (framer, false) => { f with framer := framer }

/-- The feed that ends as told; nothing is published any more. -/
def finish (f : Feed) (how : FeedEnd) : Feed :=
  { f with channel := f.channel.close, ended := some how }

/-- The feed after an event; a feed that has ended stays as it is. -/
def handle (f : Feed) (e : FeedEvent) : Feed :=
  match f.ended with
  | some _ => f
  | none =>
    match e with
    | .data bytes => (reads readSize bytes.length bytes).foldl read f
    | .fail message => f.finish (.readFailed message)
    | .breakdown => f.finish .aborted
    | .close => f.finish .done
    | .stop => f.finish .done

/-- The last reading published. -/
def value (f : Feed) : Option String :=
  f.channel.value

def reading? (f : Feed) : Option Float :=
  f.value.bind fun s => Number.ofChars? s.toList

/-- What the listener learns now, and the feed after it has. -/
def listen (f : Feed) : News × Feed :=
  (f.channel.listen.1, { f with channel := f.channel.listen.2 })

def outcome (f : Feed) : Except FeedError Unit :=
  match f.ended with
  | some (.readFailed message) => .error (.readFailed message)
  | some .aborted => .error .aborted
  | _ => .ok ()

end Feed

end Dataflow
