import Fix8.Lib.Run

/-!
# The logger

The application enqueues lines and stops the logger; `Logger::operator()`, a thread of its own, takes
the lines off the queue and writes them. The two take turns in any order, and a turn is one access to
what they share: the queue, or the stop flag.
-/

namespace Fix8.Session

/-- `FIX8_MPMC_SYSTEM`, the queue the library is built with. -/
inductive Mpmc where
  | ff
  | tbb
deriving DecidableEq, Repr

namespace Logger

/-- What a logger is made with: the kind of its queue, and `_flags & buffer`. -/
structure Config where
  mpmc : Mpmc := .ff
  buffer : Bool := false

/-- Where the thread is: at the condition of the loop, at the choice between the two ways to take an
element (TBB), in one of them, with an element, or at its end. -/
inductive Pc where
  | top
  | choose
  | tryPop
  | pop
  | got (str : String)
  | exited
deriving DecidableEq, Repr

/-- What the application does. -/
inductive Op where
  | enqueue (what : String)
  | requestStop
deriving DecidableEq, Repr

end Logger

/-- A logger, its thread, and what the application is still to do. -/
structure Logger where
  msgQueue : List String := []
  stopping : Bool := false
  buffer : List String := []
  stream : List String := []
  pc : Logger.Pc := .top
  ops : List Logger.Op
deriving DecidableEq, Repr

namespace Logger

/-- `Logger::process_logline`, without what `_positions` puts in front of the line. -/
def processLogline (cfg : Config) (str : String) (s : Logger) : Logger :=
  if cfg.buffer then { s with buffer := s.buffer ++ [str] }
  else { s with stream := s.stream ++ [str] }

/-- One turn of `Logger::operator()`. -/
def consume (cfg : Config) (s : Logger) : Logger :=
  match s.pc with
  | .top =>
    if s.stopping then { s with pc := .exited }
    else
      match cfg.mpmc with
      | .ff => { s with pc := .tryPop }
      | .tbb => { s with pc := .choose }
  | .choose => if s.stopping then { s with pc := .tryPop } else { s with pc := .pop }
  | .tryPop =>
    match s.msgQueue, cfg.mpmc with
    | str :: rest, _ => { s with msgQueue := rest, pc := .got str }
    | [], .ff => { s with pc := .top }
    | [], .tbb => { s with pc := .exited }
  | .pop =>
    match s.msgQueue with
    | str :: rest => { s with msgQueue := rest, pc := .got str }
    | [] => s  -- blocks
  | .got str =>
    if str = "" then
      match cfg.mpmc with
      | .ff => { s with pc := .exited }
      | .tbb => { s with pc := .top }
    else { processLogline cfg str s with pc := .top }
  | .exited => s

/-- One turn of the application. -/
def produce (s : Logger) : Logger :=
  match s.ops with
  | [] => s
  | .enqueue what :: ops => { s with msgQueue := s.msgQueue ++ [what], ops := ops }
  | .requestStop :: ops => { s with stopping := true, ops := ops }

/-- `Logger::stop`, up to the join. -/
def stop : List Op := [.requestStop, .enqueue ""]

/-- A new logger, and an application that enqueues some lines and stops it. -/
def start (lines : List String) : Logger := { ops := lines.map .enqueue ++ stop }

/-- Whose turn it is. -/
inductive Turn where
  | producer
  | consumer
deriving DecidableEq, Repr

/-- The logger after a turn. -/
def step (cfg : Config) (s : Logger) : Turn → Logger
  | .producer => produce s
  | .consumer => consume cfg s

/-- The join returns: the application is at its end, and the thread at its own. -/
def Stopped (s : Logger) : Prop := s.ops = [] ∧ s.pc = .exited

instance (s : Logger) : Decidable s.Stopped := inferInstanceAs (Decidable (_ ∧ _))

end Logger

end Fix8.Session
