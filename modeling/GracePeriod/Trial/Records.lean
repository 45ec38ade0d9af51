import GracePeriod.Domain
import GracePeriod.Trial.Reading

namespace GracePeriod.Trial

/-- Both domains over some workers, called directly: no thread is pinned and nothing is nested. -/
structure Records where
  domains : PerKind Domain
  skipWhenHalted : Bool
  halted : Bool := false

namespace Records

inductive Query
  | register
  | isRegistered
  /-- Answers the worker itself, which must be registered. -/
  | require
  | enter
  | leave
  | addReader (task : Nat)
  | removeReader (slot : Nat)
  | readers
  | readerCount
  | read

inductive Call
  | record (k : Kind) (w : Nat) (q : Query)
  | advance (k : Kind)
  | firstBlocker (k : Kind) (target : UInt32)
  | setHalted (b : Bool)
  | shouldSkip
  | unknown (name : String)

def start (workers : Nat) (seeds : List UInt32) (skipWhenHalted : Bool) : Except Fault Records :=
  if workers = 0 then .error .noWorkers
  else .ok { domains := Domain.startBoth workers seeds, skipWhenHalted }

def Query.ask (q : Query) (k : Kind) (w : Nat) (now : UInt32) (r : WorkerRecord) :
    WorkerRecord × Except Fault Reading :=
  let done (p : WorkerRecord × Except Fault Unit) := (p.1, p.2.map fun _ => Reading.unit)
  match q with
  | .register => ({ r with registered := true }, .ok (.flag !r.registered))
  | .isRegistered => (r, .ok (.flag r.registered))
  | .require => (r, if r.registered then .ok (.number w) else .error (.unregistered w k))
  | .enter => done (r.begin now)
  | .leave => done r.finish
  | .addReader task =>
    let p := r.addReader task
    (p.2, .ok (.number p.1))
  | .removeReader slot => done (r.removeReader slot)
  | .readers => (r, .ok (.readers r.readers.toList))
  | .readerCount => (r, .ok (.number r.readerCount))
  | .read => (r, .ok (.ofWord r.word))

def call (s : Records) : Call → Records × Reading
  | .record k w q =>
    let d := s.domains.get k
    let p := d.onRecord w (q.ask k w d.epoch)
    ({ s with domains := s.domains.set k p.1 }, .ofExcept id p.2)
  | .advance k =>
    let d := (s.domains.get k).advance
    ({ s with domains := s.domains.set k d }, .number d.epoch.toNat)
  | .firstBlocker k target => (s, .worker? ((s.domains.get k).firstBlocker? target))
  | .setHalted b => ({ s with halted := b }, .unit)
  | .shouldSkip => (s, .flag (s.skipWhenHalted && s.halted))
  | .unknown name => (s, .unknown name)

/-- The answers to a list of calls, each with both epochs right after it. -/
def run (s : Records) : List Call → List (Reading × PerKind UInt32)
  | [] => []
  | c :: rest =>
    let p := s.call c
    let epochs := ⟨(p.1.domains.get .regular).epoch, (p.1.domains.get .sleepable).epoch⟩
    (p.2, epochs) :: run p.1 rest

end Records

end GracePeriod.Trial
