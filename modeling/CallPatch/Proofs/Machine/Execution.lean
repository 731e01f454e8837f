import CallPatch.Artifact.Basic
import CallPatch.Proofs.Machine.Lockstep
/-!
# Machines — what code does

The stack effects that the instructions document, as a machine. A state is a
stack, locals and a world; where the run stands is the code that is still
ahead. What a call answers, and which values have which types, is left to an
*interpretation* over references and worlds of any kind.

A run ends by returning, by a call or a cast that fails, or by getting stuck:
on too few values, on a condition that is no truth value, on an unset local,
on a jump to a label the code lacks, or behind the last instruction.
-/

namespace CallPatch

namespace Code

/-- The code from the first label of that id on, the label included. -/
def from? (id : UInt32) : Code → Option Code
  | [] => none
  | insn :: rest => if insn = .label id then some (insn :: rest) else from? id rest

end Code

namespace Machine

/-- What stacks and locals hold. -/
inductive Value (ρ : Type) where
  | number (n : Int64)
  | truth (b : Bool)
  | reference (r : ρ)
  deriving DecidableEq, Repr

/-- What a call names. -/
structure Callee where
  kind : InvokeKind
  owner : String
  name : String
  desc : String
  deriving DecidableEq, Repr

/-- How a call ends. -/
inductive Answer (ρ ω : Type) where
  | returned (result : Option (Value ρ)) (world : ω)
  | failed (world : ω)

/-- The answer with its result, if any, thrown away. -/
def Answer.discarded {ρ ω : Type} : Answer ρ ω → Answer ρ ω
  | .returned _ world => .returned none world
  | .failed world => .failed world

/-- What types and calls mean. -/
structure Interpretation (ρ ω : Type) where
  /-- Whether a value is of the type. -/
  instanceOf : String → Value ρ → ω → Bool
  /-- Whether a cast of the value to the type succeeds. -/
  casts : String → Value ρ → ω → Bool
  /-- How many values a call takes off the stack, a receiver among them. -/
  takes : Callee → Nat
  /-- The answer to a call with these values, in the order they were pushed. -/
  call : Callee → List (Value ρ) → ω → Answer ρ ω

/-- The state of a run. -/
structure State (ρ ω : Type) where
  /-- The top first. -/
  stack : List (Value ρ)
  locals : UInt16 → Option (Value ρ)
  world : ω

/-- How a run ends. -/
inductive Outcome (ρ ω : Type) where
  | returned (value : Option (Value ρ)) (final : State ρ ω)
  | failed (world : ω)
  | stuck (world : ω)

/-- What an instruction does to a state. -/
inductive Effect (ρ ω : Type) where
  | proceed (s : State ρ ω)
  | jump (target : UInt32) (s : State ρ ω)
  | stop (o : Outcome ρ ω)

variable {ρ ω : Type}

/-- Makes a call. -/
def invoke (I : Interpretation ρ ω) (callee : Callee) (s : State ρ ω) : Effect ρ ω :=
  if s.stack.length < I.takes callee then .stop (.stuck s.world)
  else
    match I.call callee (s.stack.take (I.takes callee)).reverse s.world with
    | .returned result world =>
      .proceed ⟨result.toList ++ s.stack.drop (I.takes callee), s.locals, world⟩
    | .failed world => .stop (.failed world)

/-- Goes on with another stack, or is stuck if there is none. -/
def State.restack (s : State ρ ω) : Option (List (Value ρ)) → Effect ρ ω
  | some stack => .proceed { s with stack }
  | none => .stop (.stuck s.world)

/-- The stack behind an instruction that only moves values around. -/
def moved? (insn : Insn) (stack : List (Value ρ)) : Option (List (Value ρ)) :=
  match insn, stack with
  | .pop, _ :: st => some st
  | .pop2, _ :: _ :: st => some st
  | .dup, a :: st => some (a :: a :: st)
  | .dupX2, c :: b :: a :: st => some (c :: b :: a :: c :: st)
  | .dup2X1, c :: b :: a :: st => some (c :: b :: a :: c :: b :: st)
  | _, _ => none

/-- Does one instruction. -/
def effect (I : Interpretation ρ ω) (s : State ρ ω) : Insn → Effect ρ ω
  | .load slot => s.restack ((s.locals slot).map (· :: s.stack))
  | .store slot =>
    match s.stack with
    | v :: stack =>
      .proceed { s with stack, locals := fun i => if i = slot then some v else s.locals i }
    | [] => .stop (.stuck s.world)
  | .const n => .proceed { s with stack := .number n :: s.stack }
  | .invoke kind owner name desc => invoke I ⟨kind, owner, name, desc⟩ s
  | .instanceOf type =>
    match s.stack with
    | v :: stack => .proceed { s with stack := .truth (I.instanceOf type v s.world) :: stack }
    | [] => .stop (.stuck s.world)
  | .checkCast type =>
    match s.stack with
    | v :: _ => if I.casts type v s.world then .proceed s else .stop (.failed s.world)
    | [] => .stop (.stuck s.world)
  | .label _ => .proceed s
  | .ifEq target =>
    match s.stack with
    | .truth true :: stack => .proceed { s with stack }
    | .truth false :: stack => .jump target { s with stack }
    | _ => .stop (.stuck s.world)
  | .goto target => .jump target s
  | .ret => .stop (.returned none s)
  | .retValue =>
    match s.stack with
    | v :: stack => .stop (.returned (some v) { s with stack })
    | [] => .stop (.stuck s.world)
  | insn => s.restack (moved? insn s.stack)

/-- Where a run stands. -/
structure Point (ρ ω : Type) where
  ahead : Code
  state : State ρ ω

/-- Where the run of the code goes after an instruction with that effect, `rest` being behind it. -/
def resume (code rest : Code) : Effect ρ ω → Point ρ ω ⊕ Outcome ρ ω
  | .proceed s => .inl ⟨rest, s⟩
  | .jump target s =>
    match code.from? target with
    | some ahead => .inl ⟨ahead, s⟩
    | none => .inr (.stuck s.world)
  | .stop o => .inr o

/-- One step of a run of the code. -/
def next (I : Interpretation ρ ω) (code : Code) (p : Point ρ ω) : Point ρ ω ⊕ Outcome ρ ω :=
  match p.ahead with
  | [] => .inr (.stuck p.state.world)
  | insn :: rest => resume code rest (effect I p.state insn)

variable {I : Interpretation ρ ω} {code rest ahead : Code} {insn : Insn} {s s' : State ρ ω}

/-- An instruction that proceeds leaves the code behind it to run. -/
theorem steps_of_proceed (h : effect I s insn = .proceed s') :
    Steps (next I code) ⟨insn :: rest, s⟩ ⟨rest, s'⟩ := by
  simp only [Steps, next, h, resume]

/-- One that jumps leaves the code behind the label, whatever stands behind the instruction itself.
-/
theorem steps_of_jump {target : UInt32} (h : effect I s insn = .jump target s')
    (hfrom : code.from? target = some ahead) :
    Steps (next I code) ⟨insn :: rest, s⟩ ⟨ahead, s'⟩ := by
  simp only [Steps, next, h, resume, hfrom]

/-- A jump to a label that the code does not have ends the run. -/
theorem reaches_of_lost_jump {target : UInt32} (h : effect I s insn = .jump target s')
    (hfrom : code.from? target = none) :
    Reaches (next I code) ⟨insn :: rest, s⟩ (.stuck s'.world) :=
  reaches_of_stops (by simp only [next, h, resume, hfrom])

/-- So does an instruction that stops, with its own outcome. -/
theorem reaches_of_stop {o : Outcome ρ ω} (h : effect I s insn = .stop o) :
    Reaches (next I code) ⟨insn :: rest, s⟩ o :=
  reaches_of_stops (by simp only [next, h, resume])

/-- No call jumps. -/
theorem invoke_ne_jump (callee : Callee) (target : UInt32) :
    invoke I callee s ≠ .jump target s' := by
  intro h
  unfold invoke at h
  split at h
  · cases h
  · split at h <;> cases h

theorem restack_ne_jump (stack : Option (List (Value ρ))) (target : UInt32) :
    s.restack stack ≠ .jump target s' := by
  intro h
  cases stack <;> cases h

/-- Only an instruction that mentions the label jumps to it. -/
theorem label?_of_jump {target : UInt32} (h : effect I s insn = .jump target s') :
    insn.label? = some target := by
  cases insn with
  | goto id => cases h; rfl
  | ifEq id =>
    dsimp only [effect] at h
    split at h <;> cases h
    rfl
  | invoke kind owner name desc => exact absurd h (invoke_ne_jump _ _)
  | const n => cases h
  | label id => cases h
  | ret => cases h
  | store slot => dsimp only [effect] at h; split at h <;> cases h
  | retValue => dsimp only [effect] at h; split at h <;> cases h
  | checkCast type =>
    dsimp only [effect] at h
    split at h
    · split at h <;> cases h
    · cases h
  | instanceOf type => dsimp only [effect] at h; split at h <;> cases h
  | _ => exact absurd h (restack_ne_jump _ _)

/-- The run of the code from the state on ends with the outcome. -/
def Ends (I : Interpretation ρ ω) (code : Code) (s : State ρ ω) (o : Outcome ρ ω) : Prop :=
  Reaches (next I code) ⟨code, s⟩ o

end Machine

end CallPatch
