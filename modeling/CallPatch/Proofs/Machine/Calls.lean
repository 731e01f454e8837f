import CallPatch.Proofs.Machine.Execution
/-!
# Machines — members that call one another

An artifact as a machine of its own. A call whose owner is the artifact goes
to the first member of that name and descriptor: its values become the first
locals of a new frame, and the caller waits below until the member gives its
result back. Everything else an instruction does is what it does in code
alone, under an interpretation. A member has to give a result back exactly
where its descriptor promises one, and a call is stuck that finds no member.

Arriving at a member may leave a mark on the world. Nothing else in the world
belongs to the artifact, so that a program runs as the one seen through a
map of worlds, if answers, types and marks agree with the map
(`Program.runs_iff_of_seenThrough`).
-/

namespace CallPatch.Machine

variable {ρ ω ψ : Type}

/-- A member under way. -/
structure Frame (ρ : Type) where
  /-- Whether a result is to be given back. -/
  gives : Bool
  code : Code
  ahead : Code
  /-- The top first. -/
  stack : List (Value ρ)
  locals : UInt16 → Option (Value ρ)

/-- The state of a run through members. -/
structure Config (ρ ω : Type) where
  frame : Frame ρ
  /-- Those that wait for the member under way, the innermost first. -/
  callers : List (Frame ρ)
  world : ω

/-- How a run through members ends. -/
inductive Ending (ρ ω : Type) where
  | returned (result : Option (Value ρ)) (world : ω)
  | failed (world : ω)
  | stuck (world : ω)

/-- An artifact whose members are run. -/
structure Program (ρ ω : Type) where
  artifact : Artifact
  interpretation : Interpretation ρ ω
  /-- Whether a member with the descriptor gives a result back. -/
  gives : String → Bool
  /-- The mark that the arrival at a member of that name and descriptor leaves. -/
  arrival : String → String → ω → ω

/-- A member about to run on the values. -/
def Frame.enter (gives : Bool) (m : Member) (args : List (Value ρ)) : Frame ρ :=
  { gives, code := m.code, ahead := m.code, stack := [], locals := fun slot => args[slot.toNat]? }

/-- Gives a result back to the innermost caller, or ends the run. -/
def giveBack (gives : Bool) (callers : List (Frame ρ)) (result : Option (Value ρ)) (world : ω) :
    Config ρ ω ⊕ Ending ρ ω :=
  if result.isSome = gives then
    match callers with
    | [] => .inr (.returned result world)
    | f :: callers => .inl ⟨{ f with stack := result.toList ++ f.stack }, callers, world⟩
  else .inr (.stuck world)

/-- With nobody waiting, the result ends the run. -/
theorem giveBack_nil {gives : Bool} {result : Option (Value ρ)} (h : result.isSome = gives)
    (world : ω) : giveBack gives [] result world = .inr (.returned result world) :=
  if_pos h

/-- The innermost caller goes on, with the result, if there is one, on top of its stack. -/
theorem giveBack_cons {gives : Bool} {result : Option (Value ρ)} (h : result.isSome = gives)
    (f : Frame ρ) (callers : List (Frame ρ)) (world : ω) :
    giveBack gives (f :: callers) result world =
      .inl ⟨{ f with stack := result.toList ++ f.stack }, callers, world⟩ :=
  if_pos h

/-- A member that gives back what its descriptor does not promise, or nothing where it promises
something, is stuck. -/
theorem giveBack_of_ne {gives : Bool} {result : Option (Value ρ)} (h : result.isSome ≠ gives)
    (callers : List (Frame ρ)) (world : ω) :
    giveBack gives callers result world = .inr (.stuck world) :=
  if_neg h

/-- Where the run goes after an instruction with that effect, `rest` being behind it. -/
def Config.resume (c : Config ρ ω) (rest : Code) : Effect ρ ω → Config ρ ω ⊕ Ending ρ ω
  | .proceed s =>
    .inl ⟨{ c.frame with ahead := rest, stack := s.stack, locals := s.locals }, c.callers, s.world⟩
  | .jump target s =>
    match c.frame.code.from? target with
    | some ahead =>
      .inl ⟨{ c.frame with ahead, stack := s.stack, locals := s.locals }, c.callers, s.world⟩
    | none => .inr (.stuck s.world)
  | .stop (.returned result s) => giveBack c.frame.gives c.callers result s.world
  | .stop (.failed world) => .inr (.failed world)
  | .stop (.stuck world) => .inr (.stuck world)

namespace Program

/-- The call, if it is one of a member of the artifact. -/
def own? (P : Program ρ ω) : Insn → Option Callee
  | .invoke kind owner name desc =>
    if owner = P.artifact.name then some ⟨kind, owner, name, desc⟩ else none
  | _ => none

/-- Calls a member of the artifact, `rest` being behind the call. -/
def enter (P : Program ρ ω) (callee : Callee) (rest : Code) (c : Config ρ ω) :
    Config ρ ω ⊕ Ending ρ ω :=
  match P.artifact.member? callee.name callee.desc with
  | none => .inr (.stuck c.world)
  | some m =>
    let n := P.interpretation.takes callee
    if c.frame.stack.length < n then .inr (.stuck c.world)
    else
      .inl {
        frame := .enter (P.gives callee.desc) m (c.frame.stack.take n).reverse
        callers := { c.frame with ahead := rest, stack := c.frame.stack.drop n } :: c.callers
        world := P.arrival callee.name callee.desc c.world }

/-- One step of a run. -/
def next (P : Program ρ ω) (c : Config ρ ω) : Config ρ ω ⊕ Ending ρ ω :=
  match c.frame.ahead with
  | [] => .inr (.stuck c.world)
  | insn :: rest =>
    match P.own? insn with
    | some callee => P.enter callee rest c
    | none =>
      c.resume rest (effect P.interpretation ⟨c.frame.stack, c.frame.locals, c.world⟩ insn)

section

variable {P : Program ρ ω} {c : Config ρ ω} {insn : Insn} {rest : Code}

/-- A call of a member that the artifact does not have is stuck. -/
theorem enter_of_none {callee : Callee}
    (h : P.artifact.member? callee.name callee.desc = none) :
    P.enter callee rest c = .inr (.stuck c.world) := by
  simp only [enter, h]

/-- So is one that finds too few values, whether or not the member is there. -/
theorem enter_of_lt {callee : Callee}
    (h : c.frame.stack.length < P.interpretation.takes callee) :
    P.enter callee rest c = .inr (.stuck c.world) := by
  cases hm : P.artifact.member? callee.name callee.desc with
  | none => exact enter_of_none hm
  | some m => simp only [enter, hm, h, if_true]

/-- A call that finds its member and its values leaves a mark and a caller that waits behind it. The
value on top of the stack is the last argument. -/
theorem enter_of_not_lt {callee : Callee} {m : Member}
    (hm : P.artifact.member? callee.name callee.desc = some m)
    (h : ¬ c.frame.stack.length < P.interpretation.takes callee) :
    P.enter callee rest c =
      .inl ⟨.enter (P.gives callee.desc) m
          (c.frame.stack.take (P.interpretation.takes callee)).reverse,
        { c.frame with
          ahead := rest
          stack := c.frame.stack.drop (P.interpretation.takes callee) } :: c.callers,
        P.arrival callee.name callee.desc c.world⟩ := by
  simp only [enter, hm, h, if_false]

/-- Code that ends without a return is stuck. -/
theorem next_of_nil (h : c.frame.ahead = []) : P.next c = .inr (.stuck c.world) := by
  simp only [next, h]

/-- A call of the artifact's own goes to its member. -/
theorem next_of_own {callee : Callee} (h : c.frame.ahead = insn :: rest)
    (hown : P.own? insn = some callee) : P.next c = P.enter callee rest c := by
  simp only [next, h, hown]

/-- Everything else does what the interpretation makes of it. -/
theorem next_of_other (h : c.frame.ahead = insn :: rest) (hown : P.own? insn = none) :
    P.next c =
      c.resume rest (effect P.interpretation ⟨c.frame.stack, c.frame.locals, c.world⟩ insn) := by
  simp only [next, h, hown]

end

/-- A member of that name and descriptor, run on the values in the world, ends so. -/
def Runs (P : Program ρ ω) (name desc : String) (args : List (Value ρ)) (world : ω)
    (e : Ending ρ ω) : Prop :=
  ∃ m, P.artifact.member? name desc = some m ∧
    Reaches P.next ⟨.enter (P.gives desc) m args, [], world⟩ e

/-- A run can be told from the member that the name and the descriptor find. -/
theorem runs_iff {P : Program ρ ω} {name desc : String} {m : Member}
    (h : P.artifact.member? name desc = some m) {args : List (Value ρ)} {world : ω}
    {e : Ending ρ ω} :
    P.Runs name desc args world e ↔
      Reaches P.next ⟨.enter (P.gives desc) m args, [], world⟩ e := by
  simp [Runs, h]

end Program

/-! ## Seen through a map of worlds -/

/-- The state in the world it is mapped to. -/
def State.inWorld (f : ω → ψ) (s : State ρ ω) : State ρ ψ :=
  ⟨s.stack, s.locals, f s.world⟩

/-- The answer in the world it is mapped to. -/
def Answer.inWorld (f : ω → ψ) : Answer ρ ω → Answer ρ ψ
  | .returned result world => .returned result (f world)
  | .failed world => .failed (f world)

/-- The outcome in the world it is mapped to. -/
def Outcome.inWorld (f : ω → ψ) : Outcome ρ ω → Outcome ρ ψ
  | .returned value s => .returned value (s.inWorld f)
  | .failed world => .failed (f world)
  | .stuck world => .stuck (f world)

/-- The effect in the world it is mapped to. -/
def Effect.inWorld (f : ω → ψ) : Effect ρ ω → Effect ρ ψ
  | .proceed s => .proceed (s.inWorld f)
  | .jump target s => .jump target (s.inWorld f)
  | .stop o => .stop (o.inWorld f)

/-- The configuration in the world it is mapped to. -/
def Config.inWorld (f : ω → ψ) (c : Config ρ ω) : Config ρ ψ :=
  ⟨c.frame, c.callers, f c.world⟩

/-- The ending in the world it is mapped to. -/
def Ending.inWorld (f : ω → ψ) : Ending ρ ω → Ending ρ ψ
  | .returned result world => .returned result (f world)
  | .failed world => .failed (f world)
  | .stuck world => .stuck (f world)

/-- Types and answers agree with the map. -/
structure Interpretation.SeenThrough (f : ω → ψ) (I : Interpretation ρ ω)
    (J : Interpretation ρ ψ) : Prop where
  instanceOf : ∀ type v world, J.instanceOf type v (f world) = I.instanceOf type v world
  casts : ∀ type v world, J.casts type v (f world) = I.casts type v world
  takes : ∀ callee, J.takes callee = I.takes callee
  call : ∀ callee args world, J.call callee args (f world) = (I.call callee args world).inWorld f

section

variable {f : ω → ψ} {I : Interpretation ρ ω} {J : Interpretation ρ ψ}

theorem restack_inWorld (s : State ρ ω) (stack : Option (List (Value ρ))) :
    (s.inWorld f).restack stack = (s.restack stack).inWorld f := by
  cases stack <;> rfl

/-- An answer seen through the map is the answer to the call there. -/
theorem invoke_inWorld (h : I.SeenThrough f J) (callee : Callee) (s : State ρ ω) :
    invoke J callee (s.inWorld f) = (invoke I callee s).inWorld f := by
  by_cases hfew : s.stack.length < I.takes callee
  · simp only [invoke, h.takes, State.inWorld, hfew, if_true]
    rfl
  · simp only [invoke, h.takes, h.call, State.inWorld, hfew, if_false]
    cases I.call callee (s.stack.take (I.takes callee)).reverse s.world <;> rfl

/-- No instruction sees more of the world than the map shows. -/
theorem effect_inWorld (h : I.SeenThrough f J) (s : State ρ ω) (insn : Insn) :
    effect J (s.inWorld f) insn = (effect I s insn).inWorld f := by
  obtain ⟨stack, locals, world⟩ := s
  cases insn with
  | load slot => exact restack_inWorld ⟨stack, locals, world⟩ _
  | store slot => cases stack <;> rfl
  | const n => rfl
  | invoke kind owner name desc => exact invoke_inWorld h _ _
  | instanceOf type =>
    cases stack with
    | nil => rfl
    | cons v stack =>
      have htype := h.instanceOf type v world
      dsimp only [effect, State.inWorld]
      rw [htype]
      rfl
  | checkCast type =>
    cases stack with
    | nil => rfl
    | cons v stack =>
      have hcast := h.casts type v world
      dsimp only [effect, State.inWorld]
      rw [hcast]
      split <;> rfl
  | label id => rfl
  | ifEq target =>
    dsimp only [effect, State.inWorld]
    split <;> rfl
  | goto target => rfl
  | ret => rfl
  | retValue => cases stack <;> rfl
  | pop | pop2 | dup | dupX2 | dup2X1 => exact restack_inWorld ⟨stack, locals, world⟩ _

/-- Giving a result back does not look at the world. -/
theorem giveBack_inWorld (gives : Bool) (callers : List (Frame ρ)) (result : Option (Value ρ))
    (world : ω) :
    giveBack gives callers result (f world)
      = (giveBack gives callers result world).map (Config.inWorld f) (Ending.inWorld f) := by
  unfold giveBack
  split
  · cases callers <;> rfl
  · rfl

/-- Nor does going on after an instruction. -/
theorem resume_inWorld (c : Config ρ ω) (rest : Code) (x : Effect ρ ω) :
    (c.inWorld f).resume rest (x.inWorld f)
      = (c.resume rest x).map (Config.inWorld f) (Ending.inWorld f) := by
  cases x with
  | proceed s => rfl
  | jump target s =>
    simp only [Config.resume, Effect.inWorld, Config.inWorld]
    split <;> rfl
  | stop o =>
    cases o with
    | returned result s => exact giveBack_inWorld c.frame.gives c.callers result s.world
    | failed world => rfl
    | stuck world => rfl

end

namespace Program

/-- The programs run the same artifact, and the second sees of each world what the map shows. -/
structure SeenThrough (f : ω → ψ) (P : Program ρ ω) (Q : Program ρ ψ) : Prop where
  artifact : Q.artifact = P.artifact
  interpretation : P.interpretation.SeenThrough f Q.interpretation
  gives : Q.gives = P.gives
  arrival : ∀ name desc world, Q.arrival name desc (f world) = f (P.arrival name desc world)

variable {f : ω → ψ} {P : Program ρ ω} {Q : Program ρ ψ}

theorem own?_inWorld (h : P.SeenThrough f Q) (insn : Insn) : Q.own? insn = P.own? insn := by
  cases insn <;> simp [own?, h.artifact]

/-- Arriving at a member is seen through the map, since its mark is. -/
theorem enter_inWorld (h : P.SeenThrough f Q) (callee : Callee) (rest : Code) (c : Config ρ ω) :
    Q.enter callee rest (c.inWorld f)
      = (P.enter callee rest c).map (Config.inWorld f) (Ending.inWorld f) := by
  unfold enter
  rw [h.artifact]
  cases P.artifact.member? callee.name callee.desc with
  | none => rfl
  | some m =>
    simp only [Config.inWorld, h.interpretation.takes, h.gives, h.arrival]
    split <;> rfl

/-- **One step is seen through the map.** A run is its steps, so that `runs_iff_of_seenThrough`
follows from this alone. -/
theorem next_inWorld (h : P.SeenThrough f Q) (c : Config ρ ω) :
    Q.next (c.inWorld f) = (P.next c).map (Config.inWorld f) (Ending.inWorld f) := by
  cases hahead : c.frame.ahead with
  | nil =>
    rw [next_of_nil hahead]
    exact next_of_nil hahead
  | cons insn rest =>
    have hahead' : (c.inWorld f).frame.ahead = insn :: rest := hahead
    cases hown : P.own? insn with
    | some callee =>
      rw [next_of_own hahead hown, next_of_own hahead' ((own?_inWorld h insn).trans hown)]
      exact enter_inWorld h callee rest c
    | none =>
      rw [next_of_other hahead hown, next_of_other hahead' ((own?_inWorld h insn).trans hown),
        ← resume_inWorld, ← effect_inWorld h.interpretation]
      rfl

/-- **A program ends as the one seen through the map does.** -/
theorem runs_iff_of_seenThrough (h : P.SeenThrough f Q) {name desc : String}
    {args : List (Value ρ)} {world : ω} {e : Ending ρ ψ} :
    Q.Runs name desc args (f world) e ↔
      ∃ e', P.Runs name desc args world e' ∧ e'.inWorld f = e := by
  have hrun (m : Member) :
      Reaches Q.next ⟨.enter (Q.gives desc) m args, [], f world⟩ e ↔
        ∃ e', Reaches P.next ⟨.enter (P.gives desc) m args, [], world⟩ e' ∧ e'.inWorld f = e := by
    rw [h.gives]
    exact reaches_map_iff (next_inWorld h) (s := ⟨.enter (P.gives desc) m args, [], world⟩)
  simp only [Runs, h.artifact, hrun]
  constructor
  · rintro ⟨m, hm, e', hreach, he⟩
    exact ⟨e', ⟨m, hm, hreach⟩, he⟩
  · rintro ⟨e', ⟨m, hm, hreach⟩, he⟩
    exact ⟨m, hm, e', hreach, he⟩

end Program

end CallPatch.Machine
