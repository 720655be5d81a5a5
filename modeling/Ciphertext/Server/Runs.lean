import Ciphertext.Server.Router

/-!
# Runs of the router

The server's reader threads call `handle` for each frame and `on_disconnect`
when a connection closes. A `Run` is any sequence of such calls, each finished
before the next begins, from a server with an empty database: any number of
connections, any frames, in any order. A handler that raises stays in the run
with whatever it had done by then, and what its connection does next is left
open.

A `Step` keeps the world before it, the input, and what came of it, so a statement about a
run can speak of the frames a step put in outboxes and of the state it found. `Run.inv` is
the rule by which an invariant goes over whole runs. That handlers run one after the other
is taken back in `Server/Interleaving.lean`, where each call is a step of its own.
-/

namespace Ciphertext

open MessageRouter

/-- One call on the router. -/
inductive Input where
  | frame (s : Sid) (f : Frame)
  | hangup (s : Sid)

/-- The type of the frame, if the call is for one. -/
def Input.type : Input → Option MessageType
  | .frame _ f => some f.type
  | .hangup _ => none

/-- The `env` field of the frame. -/
def Input.env : Input → Json
  | .frame _ f => f.get "env"
  | .hangup _ => .null

/-- A server nobody has used yet, with its supplies of ids, readings and salts. -/
def World.start (uuid : Nat → Str) (clock : Nat → Int) (salt : Nat → List UInt8) : World :=
  { uuid, clock, salt }

variable [Runtime]

def Input.prog (cfg : Config) : Input → RouterM Unit
  | .frame s f => handle cfg s f
  | .hangup s => onDisconnect s

/-- One call and what came of it. -/
structure Step where
  before : World
  input : Input
  outcome : Except PyErr Unit
  after : World

/-- The step an input makes from a world. -/
def Step.of (cfg : Config) (w : World) (i : Input) : Step :=
  ⟨w, i, ((i.prog cfg).exec w).1, ((i.prog cfg).exec w).2⟩

/-- The frames a step put in outboxes, in order. -/
def Step.out (st : Step) : List Delivery := st.after.sent.drop st.before.sent.length

/-- The steps taken so far and the world they lead to. -/
inductive Run (cfg : Config) (w₀ : World) : List Step → World → Prop
  | nil : Run cfg w₀ [] w₀
  | snoc {tr : List Step} {w : World} (h : Run cfg w₀ tr w) (i : Input) :
      Run cfg w₀ (tr ++ [Step.of cfg w i]) (Step.of cfg w i).after

/-- Every step of a run is the step its input makes from the world the steps
before it lead to. -/
theorem Run.split {cfg : Config} {w₀ w : World} {tr : List Step} (h : Run cfg w₀ tr w) :
    ∀ pre st post, tr = pre ++ st :: post →
      Run cfg w₀ pre st.before ∧ st = Step.of cfg st.before st.input := by
  induction h with
  | nil => intro pre st post he; simp at he
  | @snoc tr w h i ih =>
    intro pre st post he
    rcases List.eq_nil_or_concat post with rfl | ⟨post', last, rfl⟩
    · rw [List.append_cons pre, List.append_nil] at he
      obtain ⟨hpre, hst⟩ := List.append_inj' he rfl
      simp only [List.cons.injEq, and_true] at hpre hst
      subst hpre hst
      exact ⟨h, rfl⟩
    · rw [List.concat_eq_append, ← List.cons_append, ← List.append_assoc] at he
      obtain ⟨hpre, -⟩ := List.append_inj' he rfl
      exact ih pre st post' hpre

/-- An invariant that holds at the start and is kept by every step holds after
every run. -/
theorem Run.inv {cfg : Config} {w₀ w : World} {tr : List Step} (h : Run cfg w₀ tr w)
    (I : World → Prop) (h₀ : I w₀) (hstep : ∀ w i, I w → I (Step.of cfg w i).after) : I w := by
  induction h with
  | nil => exact h₀
  | snoc _ i ih => exact hstep _ i ih

theorem Run.eq_start {cfg : Config} {w₀ w : World} (h : Run cfg w₀ [] w) : w = w₀ := by
  generalize hl : ([] : List Step) = l at h
  cases h with
  | nil => rfl
  | snoc _ i => simp at hl

/-- The last step of a run. -/
theorem Run.of_concat {cfg : Config} {w₀ w : World} {tr : List Step} {st : Step}
    (h : Run cfg w₀ (tr ++ [st]) w) :
    ∃ w₁ i, Run cfg w₀ tr w₁ ∧ st = Step.of cfg w₁ i ∧ w = st.after := by
  generalize hl : tr ++ [st] = l at h
  cases h with
  | nil => simp at hl
  | @snoc tr' w₁ h i =>
    obtain ⟨htr, hst⟩ := List.append_inj' hl rfl
    obtain rfl := List.singleton_inj.mp hst
    subst htr
    exact ⟨w₁, i, h, rfl, rfl⟩

/-! ## Runs on given inputs -/

/-- The steps a list of inputs makes. -/
def trace (cfg : Config) (w : World) : List Input → List Step
  | [] => []
  | i :: is => Step.of cfg w i :: trace cfg (Step.of cfg w i).after is

/-- The world they lead to. -/
def World.after (cfg : Config) (w : World) : List Input → World
  | [] => w
  | i :: is => (Step.of cfg w i).after.after cfg is

theorem Run.append_trace {cfg : Config} {w₀ w : World} {tr : List Step} (h : Run cfg w₀ tr w)
    (is : List Input) : Run cfg w₀ (tr ++ trace cfg w is) (w.after cfg is) := by
  induction is generalizing tr w with
  | nil =>
    rw [trace, List.append_nil]
    exact h
  | cons i is ih =>
    have := ih (h.snoc i)
    rwa [List.append_assoc, List.singleton_append] at this

theorem trace_append (cfg : Config) (w : World) (is js : List Input) :
    trace cfg w (is ++ js) = trace cfg w is ++ trace cfg (w.after cfg is) js := by
  induction is generalizing w with
  | nil => rfl
  | cons i is ih =>
    rw [List.cons_append, trace, trace, ih, List.cons_append]
    rfl

/-- Any list of inputs is a run. -/
theorem Run.of_inputs (cfg : Config) (w : World) (is : List Input) :
    Run cfg w (trace cfg w is) (w.after cfg is) :=
  Run.nil.append_trace is

/-- The steps of a trace are those of its inputs. -/
theorem mem_trace {cfg : Config} {w : World} {is : List Input} {st : Step}
    (h : st ∈ trace cfg w is) : st.input ∈ is := by
  induction is generalizing w with
  | nil => cases h
  | cons i is ih =>
    rcases List.mem_cons.mp h with rfl | h
    · exact List.mem_cons_self ..
    · exact List.mem_cons_of_mem _ (ih h)

/-- Traces of inputs that correspond one by one. -/
theorem forall₂_trace {cfg : Config} {P : Input → Input → Prop} {is is' : List Input}
    (h : List.Forall₂ P is is') (w w' : World) :
    List.Forall₂ (fun st st' : Step => P st.input st'.input) (trace cfg w is) (trace cfg w' is') := by
  induction h generalizing w w' with
  | nil => exact .nil
  | cons hi _ ih => exact .cons hi (ih _ _)

/-! ## Inputs for concrete runs -/

namespace Sample

/-- A request with the given payload. -/
def ask (type : MessageType) (data : Dict) : Frame := { type, data, id := .str "q", ts := 1 }

def register (name : Str) : Input :=
  .frame 0 (ask .register [("user", .str name), ("pass_hash", .str "p")])

def login (s : Sid) (name : Str) : Input :=
  .frame s (ask .login [("user", .str name), ("pass_hash", .str "p")])

/-- A message under an id of the sender's choice. -/
def msg (s : Sid) (target id : Str) : Input :=
  .frame s { type := .msg, target := .str target, body := .str "hi", nonce := .str "n",
             id := .str id, ts := 5 }

/-- A server with both stores, as `ChatServer` builds it. -/
def chatServer : Config := ⟨true, true⟩

/-- A fresh one, with its supplies of ids, readings and salts. -/
def fresh : World := World.start (fun n => [Fin.ofNat 0x110000 n]) (fun n => n) (fun _ => [])

end Sample

end Ciphertext
