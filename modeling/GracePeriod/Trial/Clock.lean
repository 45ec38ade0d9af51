import GracePeriod.Table
import GracePeriod.Trial.Reading

namespace GracePeriod.Trial

/-- An epoch counter and some reader words, without workers or threads. -/
structure Clock where
  now : UInt32 := 0
  size : Nat := 0
  words : Table ReaderWord := {}
  deriving Inhabited

namespace Clock

/-- Words are numbered modulo their count. -/
inductive Call
  | advance
  | enter (r : Nat)
  | leave (r : Nat)
  | read (r : Nat)
  | blocks (r : Nat) (target : UInt32)
  | unknown (name : String)

def start (now : UInt32) (words : List ReaderWord) : Clock := ⟨now, words.length, ⟨words⟩⟩

def place (c : Clock) (r : Nat) : Nat := r % c.size

def word (c : Clock) (r : Nat) : ReaderWord := c.words.get (c.place r)

def setWord (c : Clock) (r : Nat) (w : ReaderWord) : Clock :=
  { c with words := c.words.set (c.place r) w }

def call (c : Clock) : Call → Clock × Reading
  | .advance => ({ c with now := c.now + 1 }, .number (c.now + 1).toNat)
  | .enter r =>
    match (c.word r).enter c.now with
    | .ok w => (c.setWord r w, .unit)
    | .error f => (c, .fault f)
  | .leave r =>
    let p := (c.word r).leave
    (c.setWord r p.1, .ofExcept (fun _ => .unit) p.2)
  | .read r => (c, .ofWord (c.word r))
  | .blocks r target => (c, .flag ((c.word r).blocks target))
  | .unknown name => (c, .unknown name)

def allWords (c : Clock) : List ReaderWord := (List.range c.size).map c.words.get

/-- The answers to a list of calls, each with the state right after it. -/
def run (c : Clock) : List Call → List (Reading × Clock)
  | [] => []
  | s :: rest =>
    let p := c.call s
    (p.2, p.1) :: run p.1 rest

end Clock

end GracePeriod.Trial
