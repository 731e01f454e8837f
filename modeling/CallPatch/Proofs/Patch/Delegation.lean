import CallPatch.Proofs.Artifact.RoundTrip
import CallPatch.Proofs.Patch.EntryPoints
import CallPatch.Proofs.Patch.Passes
/-!
# Patching — what an extended store does

An extended store does what the store did, but for the notifications. A run
of the one and a run of the other go in lockstep with the same member under
way. Where the store calls its own `put`, the extended one comes through the
new `put` to the same code, and leaves that `put` behind as a *relay*: a
caller with nothing left to do but to hand on the result. The callers of the
two runs are the same up to relays (`Relayed`).

Notifications are counted on the side of the store: the two runs agree on
the log too when the store notes each arrival at its own `put`
(`Artifact.noted`).
-/

namespace CallPatch

open Machine

variable {ρ ω : Type}

/-! ## Worlds with a log -/

/-- The call that notifies the agent. -/
def Store.notification : Callee :=
  ⟨.static, notifyOwner, notifyName, notifyDesc⟩

namespace Machine

/-- A world, and the worlds in which the agent was notified. -/
structure Logged (ω : Type) where
  world : ω
  log : List ω

/-- The world with a notification more. -/
def Logged.note (w : Logged ω) : Logged ω :=
  { w with log := w.log ++ [w.world] }

/-- A notification is noted and answered with a truth value; all other calls leave the log alone. -/
def Interpretation.logged (I : Interpretation ρ ω) (reply : ω → Bool) :
    Interpretation ρ (Logged ω) where
  instanceOf type v w := I.instanceOf type v w.world
  casts type v w := I.casts type v w.world
  takes callee := if callee = Store.notification then 0 else I.takes callee
  call callee args w :=
    if callee = Store.notification then .returned (some (.truth (reply w.world))) w.note
    else (I.call callee args w.world).inWorld fun world => ⟨world, w.log⟩

/-- The answers without the log. -/
def Interpretation.unlogged (I : Interpretation ρ ω) (reply : ω → Bool) : Interpretation ρ ω where
  instanceOf := I.instanceOf
  casts := I.casts
  takes callee := if callee = Store.notification then 0 else I.takes callee
  call callee args world :=
    if callee = Store.notification then .returned (some (.truth (reply world))) world
    else I.call callee args world

/-- No answer depends on the log. -/
theorem Interpretation.seenThrough_world (I : Interpretation ρ ω) (reply : ω → Bool) :
    (I.logged reply).SeenThrough Logged.world (I.unlogged reply) where
  instanceOf _ _ _ := rfl
  casts _ _ _ := rfl
  takes _ := rfl
  call callee args w := by
    by_cases hcallee : callee = Store.notification
    · simp only [logged, unlogged, hcallee, if_true]
      rfl
    · simp only [logged, unlogged, hcallee, if_false]
      cases I.call callee args w.world <;> rfl

end Machine

/-! ## The programs of a store -/

namespace Artifact

/-- The artifact as a program over worlds with a log. -/
def program (a : Artifact) (I : Interpretation ρ ω) (reply : ω → Bool) (gives : String → Bool) :
    Program ρ (Logged ω) where
  artifact := a
  interpretation := I.logged reply
  gives := gives
  arrival _ _ w := w

/-- The artifact as the same program, but that each of its calls of its own `put` is noted. -/
def noted (a : Artifact) (I : Interpretation ρ ω) (reply : ω → Bool) (gives : String → Bool) :
    Program ρ (Logged ω) where
  artifact := a
  interpretation := I.logged reply
  gives := gives
  arrival name desc w := if name = Store.put ∧ desc = Store.putDesc then w.note else w

/-- The artifact as a program without a log. -/
def unlogged (a : Artifact) (I : Interpretation ρ ω) (reply : ω → Bool) (gives : String → Bool) :
    Program ρ ω where
  artifact := a
  interpretation := I.unlogged reply
  gives := gives
  arrival _ _ world := world

variable (a : Artifact) (I : Interpretation ρ ω) (reply : ω → Bool) (gives : String → Bool)

/-- So the artifact runs with the log as without. -/
theorem program_seenThrough :
    (a.program I reply gives).SeenThrough Logged.world (a.unlogged I reply gives) where
  artifact := rfl
  interpretation := I.seenThrough_world reply
  gives := rfl
  arrival _ _ _ := rfl

/-- Also where the arrivals at its `put` are noted, since a note is in the log alone. -/
theorem noted_seenThrough :
    (a.noted I reply gives).SeenThrough Logged.world (a.unlogged I reply gives) where
  artifact := rfl
  interpretation := I.seenThrough_world reply
  gives := rfl
  arrival name desc w := by
    change w.world = (if _ then w.note else w).world
    split <;> rfl

end Artifact

/-- A call of `put` or `set` on the store itself hands over the store, the key and the value, and of
the two only `put` gives a result back. -/
structure Conventions (a : Artifact) (I : Interpretation ρ ω) (gives : String → Bool) : Prop where
  put_takes : ∀ m ∈ a.members, ∀ kind,
    .invoke kind a.name Store.put Store.putDesc ∈ m.code →
      I.takes ⟨kind, a.name, Store.put, Store.putDesc⟩ = 3
  kept_takes : I.takes ⟨.virtual, a.name, Store.keptSlowPath, Store.putDesc⟩ = 3
  set_takes : I.takes ⟨.virtual, a.name, Store.set, Store.setDesc⟩ = 3
  put_gives : gives Store.putDesc = true
  set_gives : gives Store.setDesc = false

/-! ## Relays -/

/-- A caller that only hands a result on, or only returns where none is to be given. -/
structure Relay (gives : Bool) (f : Frame ρ) : Prop where
  gives_eq : f.gives = gives
  stack_eq : f.stack = []
  ahead_eq : f.ahead = [if gives then .retValue else .ret]

/-- The frame runs code of the artifact. -/
def Native (a : Artifact) (f : Frame ρ) : Prop :=
  ∃ m ∈ a.members, f.code = m.code ∧ f.ahead ⊆ m.code

/-- The callers below a frame, with and without relays. -/
inductive Relayed (a : Artifact) : Bool → List (Frame ρ) → List (Frame ρ) → Prop where
  | nil (gives : Bool) : Relayed a gives [] []
  | cons {gives : Bool} {f : Frame ρ} {fs gs : List (Frame ρ)} (native : Native a f)
      (rest : Relayed a f.gives fs gs) : Relayed a gives (f :: fs) (f :: gs)
  | relay {gives : Bool} {f : Frame ρ} {fs gs : List (Frame ρ)} (relay : Relay gives f)
      (rest : Relayed a gives fs gs) : Relayed a gives (f :: fs) gs

/-- The runs have the same member under way, and the same callers up to relays. -/
structure Aligned (a : Artifact) (c d : Config ρ ω) : Prop where
  frame : c.frame = d.frame
  world : c.world = d.world
  native : Native a c.frame
  callers : Relayed a c.frame.gives c.callers d.callers

section

variable {a : Artifact} {P Q : Program ρ ω} {gives : Bool} {fs gs : List (Frame ρ)}
variable {result : Option (Value ρ)} {world : ω} {c d : Config ρ ω}

/-- A relay hands on what it is given. -/
theorem Relay.next_eq {f : Frame ρ} (h : Relay gives f) (hresult : result.isSome = gives) :
    P.next ⟨{ f with stack := result.toList ++ f.stack }, fs, world⟩
      = giveBack gives fs result world := by
  obtain ⟨g, code, ahead, stack, locals⟩ := f
  obtain ⟨hgives, hstack, hahead⟩ := h
  dsimp only at hgives hstack hahead
  subst hgives hstack hahead
  cases result with
  | none =>
    cases hresult
    rfl
  | some v =>
    cases hresult
    rfl

/-- **Results go back alike**, through however many relays. -/
theorem Relayed.keeps_giveBack (h : Relayed a gives fs gs)
    (hc : P.next c = giveBack gives fs result world)
    (hd : Q.next d = giveBack gives gs result world) :
    Keeps P.next Q.next (Aligned a) c d := by
  by_cases hresult : result.isSome = gives
  · induction h generalizing c with
    | nil gives =>
      rw [giveBack_nil hresult] at hc hd
      exact .inr ⟨_, reaches_of_stops hc, reaches_of_stops hd⟩
    | cons native rest _ =>
      rw [giveBack_cons hresult] at hc hd
      exact .inl ⟨_, _, .single hc, .single hd, ⟨rfl, rfl, native, rest⟩⟩
    | relay relay rest ih =>
      rw [giveBack_cons hresult] at hc
      exact (ih (relay.next_eq hresult) hd hresult).of_steps hc
  · rw [giveBack_of_ne hresult] at hc hd
    exact .inr ⟨_, reaches_of_stops hc, reaches_of_stops hd⟩

end

/-! ## The entry points at work -/

section

variable {P : Program ρ ω} {f : Frame ρ} {callers : List (Frame ρ)} {world : ω} {rest : Code}
variable {receiver key value : Value ρ}

/-- A local that is set is loaded. -/
theorem steps_load {slot : UInt16} {v : Value ρ} (hahead : f.ahead = .load slot :: rest)
    (hlocal : f.locals slot = some v) :
    Steps P.next ⟨f, callers, world⟩
      ⟨{ f with ahead := rest, stack := v :: f.stack }, callers, world⟩ := by
  have heffect : effect P.interpretation ⟨f.stack, f.locals, world⟩ (.load slot) =
      .proceed ⟨v :: f.stack, f.locals, world⟩ := by
    dsimp only [effect]
    rw [hlocal]
    rfl
  rw [Steps, Program.next_of_other hahead rfl, heffect]
  rfl

theorem own?_invoke (P : Program ρ ω) (kind : InvokeKind) (name desc : String) :
    P.own? (.invoke kind P.artifact.name name desc) = some ⟨kind, P.artifact.name, name, desc⟩ :=
  if_pos rfl

/-- A call of a member with three values enters it on these. -/
theorem enter_three {callee : Callee} {m : Member} {st : List (Value ρ)}
    (hm : P.artifact.member? callee.name callee.desc = some m)
    (htakes : P.interpretation.takes callee = 3)
    (hstack : f.stack = value :: key :: receiver :: st) :
    P.enter callee rest ⟨f, callers, world⟩ =
      .inl ⟨.enter (P.gives callee.desc) m [receiver, key, value],
        { f with ahead := rest, stack := st } :: callers,
        P.arrival callee.name callee.desc world⟩ := by
  simp [Program.enter, hm, htakes, hstack]

/-- Delegating reaches the other member on the same values, and leaves the last instruction. -/
theorem advances_delegate {name desc : String} {m : Member} {last : Insn}
    (hm : P.artifact.member? name desc = some m)
    (htakes : P.interpretation.takes ⟨.virtual, P.artifact.name, name, desc⟩ = 3)
    (hahead : f.ahead = Store.delegate P.artifact.name name desc ++ [last])
    (hreceiver : f.locals 0 = some receiver) (hkey : f.locals 1 = some key)
    (hvalue : f.locals 2 = some value) :
    Advances P.next ⟨f, callers, world⟩
      ⟨.enter (P.gives desc) m [receiver, key, value],
        { f with ahead := [last] } :: callers, P.arrival name desc world⟩ := by
  refine .head (steps_load hahead hreceiver) ?_
  refine .head (steps_load rfl hkey) ?_
  refine .head (steps_load rfl hvalue) (.single ?_)
  rw [Steps, Program.next_of_own rfl (own?_invoke P _ _ _)]
  exact enter_three hm htakes rfl

end

section

variable {a : Artifact} {I : Interpretation ρ ω} {reply : ω → Bool} {gives : String → Bool}
variable {callers : List (Frame ρ)} {w : Logged ω} {receiver key value : Value ρ} {m : Member}

/-- Apart from the notification, calls take as many values as before. -/
theorem takes_logged (I : Interpretation ρ ω) (reply : ω → Bool) {callee : Callee}
    (h : callee.owner ≠ Store.notifyOwner) :
    (I.logged reply).takes callee = I.takes callee :=
  if_neg fun heq => h (by rw [heq]; rfl)

/-- A notification leaves its mark, and a truth value that is dropped. -/
theorem advances_notify {b : Artifact} (h : b.name ≠ Store.notifyOwner) {f : Frame ρ} {rest : Code}
    (hahead : f.ahead =
      .invoke .static Store.notifyOwner Store.notifyName Store.notifyDesc :: .pop :: rest) :
    Advances (b.program I reply gives).next ⟨f, callers, w⟩
      ⟨{ f with ahead := rest }, callers, w.note⟩ := by
  have hown : (b.program I reply gives).own?
      (.invoke .static Store.notifyOwner Store.notifyName Store.notifyDesc) = none :=
    if_neg (Ne.symm h)
  have hnotify : Steps (b.program I reply gives).next ⟨f, callers, w⟩
      ⟨{ f with ahead := .pop :: rest, stack := .truth (reply w.world) :: f.stack }, callers,
        w.note⟩ := by
    rw [Steps, Program.next_of_other hahead hown]
    rfl
  exact .head hnotify (.single rfl)

variable {f : Frame ρ}

/-- The first `put` is entered from its new name. -/
theorem advances_kept (reply : ω → Bool) (ha : a.Extensible) (hI : Conventions a I gives)
    (hm : a.member? Store.put Store.putDesc = some m) (hgives : f.gives = gives Store.putDesc)
    (hstack : f.stack = [])
    (hahead : f.ahead = Store.delegate a.name Store.keptSlowPath Store.putDesc ++ [.retValue])
    (hreceiver : f.locals 0 = some receiver) (hkey : f.locals 1 = some key)
    (hvalue : f.locals 2 = some value) :
    ∃ r, Relay (gives Store.putDesc) r ∧
      Advances (a.extended.program I reply gives).next ⟨f, callers, w⟩
        ⟨.enter (gives Store.putDesc) m [receiver, key, value], r :: callers, w⟩ := by
  have hkept : a.extended.member? Store.keptSlowPath Store.putDesc = some (Store.demote m) := by
    rw [ha.member?_kept, hm]
    rfl
  have htakes := (takes_logged I reply ha.foreign).trans hI.kept_takes
  have hrelay : Relay (gives Store.putDesc) { f with ahead := [.retValue] } := by
    refine ⟨hgives, hstack, ?_⟩
    rw [hI.put_gives]
    rfl
  exact ⟨_, hrelay, advances_delegate (P := a.extended.program I reply gives)
    (m := Store.demote m) hkept htakes hahead hreceiver hkey hvalue⟩

/-- **The new `put` notifies once and goes on as the first one.** -/
theorem advances_put (ha : a.Extensible) (hI : Conventions a I gives)
    (hm : a.member? Store.put Store.putDesc = some m) :
    ∃ r, Relay (gives Store.putDesc) r ∧
      Advances (a.extended.program I reply gives).next
        ⟨.enter (gives Store.putDesc) (Store.notifyingPut a.name) [receiver, key, value],
          callers, w⟩
        ⟨.enter (gives Store.putDesc) m [receiver, key, value], r :: callers, w.note⟩ := by
  have hforeign : a.extended.name ≠ Store.notifyOwner := ha.foreign
  obtain ⟨r, hr, hadvance⟩ := advances_kept reply ha hI hm
    (f := { Frame.enter (gives Store.putDesc) (Store.notifyingPut a.name) [receiver, key, value]
      with ahead := Store.delegate a.name Store.keptSlowPath Store.putDesc ++ [.retValue] })
    rfl rfl rfl rfl rfl rfl
  exact ⟨r, hr, (advances_notify hforeign rfl).trans hadvance⟩

end

/-! ## Lockstep -/

/-- A jump stays inside the code. -/
theorem Code.subset_of_from? {id : UInt32} {code ahead : Code} (h : code.from? id = some ahead) :
    ahead ⊆ code := by
  induction code with
  | nil => cases h
  | cons insn rest ih =>
    rw [Code.from?] at h
    split at h
    · obtain rfl := Option.some.inj h
      exact fun _ hi => hi
    · exact fun i hi => List.mem_cons_of_mem insn (ih h hi)

theorem Machine.Program.eq_invoke_of_own? {P : Program ρ ω} {insn : Insn} {callee : Callee}
    (h : P.own? insn = some callee) :
    insn = .invoke callee.kind P.artifact.name callee.name callee.desc ∧
      callee.owner = P.artifact.name := by
  cases insn
  case invoke kind owner name desc =>
    rw [Program.own?] at h
    split at h
    · rename_i howner
      obtain rfl := Option.some.inj h
      exact ⟨by rw [howner], howner⟩
    · cases h
  all_goals cases h

section

variable {a : Artifact} {f : Frame ρ} {insn : Insn} {rest : Code}

/-- What a native frame is about to run stands in a member of the artifact. -/
theorem Native.mem (h : Native a f) (hahead : f.ahead = insn :: rest) :
    ∃ m ∈ a.members, insn ∈ m.code := by
  obtain ⟨m, hm, -, hsubset⟩ := h
  exact ⟨m, hm, hsubset (hahead ▸ List.mem_cons_self)⟩

theorem Native.behind (h : Native a f) (hahead : f.ahead = insn :: rest)
    (stack : List (Value ρ)) (locals : UInt16 → Option (Value ρ)) :
    Native a { f with ahead := rest, stack, locals } := by
  obtain ⟨m, hm, hcode, hsubset⟩ := h
  exact ⟨m, hm, hcode, fun i hi => hsubset (hahead ▸ List.mem_cons_of_mem insn hi)⟩

/-- A jump stays within its member. -/
theorem Native.jumped (h : Native a f) {id : UInt32} {ahead : Code}
    (hahead : f.code.from? id = some ahead) (stack : List (Value ρ))
    (locals : UInt16 → Option (Value ρ)) : Native a { f with ahead, stack, locals } := by
  obtain ⟨m, hm, hcode, -⟩ := h
  exact ⟨m, hm, hcode, hcode ▸ Code.subset_of_from? hahead⟩

/-- A frame of a member of the artifact is native. -/
theorem native_enter {m : Member} (hm : m ∈ a.members) (gives : Bool) (args : List (Value ρ)) :
    Native a (.enter gives m args) :=
  ⟨m, hm, rfl, fun _ hi => hi⟩

/-- What is no call of an own member does the same on either side. -/
theorem keeps_resume {P Q : Program ρ ω} {fs gs : List (Frame ρ)} {world : ω}
    (hnative : Native a f) (hcallers : Relayed a f.gives fs gs) (hahead : f.ahead = insn :: rest)
    (x : Effect ρ ω) (hc : P.next ⟨f, fs, world⟩ = Config.resume ⟨f, fs, world⟩ rest x)
    (hd : Q.next ⟨f, gs, world⟩ = Config.resume ⟨f, gs, world⟩ rest x) :
    Keeps P.next Q.next (Aligned a) ⟨f, fs, world⟩ ⟨f, gs, world⟩ := by
  cases x with
  | proceed s =>
    exact .inl ⟨_, _, .single hc, .single hd, ⟨rfl, rfl, hnative.behind hahead _ _, hcallers⟩⟩
  | jump target s =>
    simp only [Config.resume] at hc hd
    cases hfrom : f.code.from? target with
    | some ahead =>
      rw [hfrom] at hc hd
      exact .inl ⟨_, _, .single hc, .single hd, ⟨rfl, rfl, hnative.jumped hfrom _ _, hcallers⟩⟩
    | none =>
      rw [hfrom] at hc hd
      exact .inr ⟨_, reaches_of_stops hc, reaches_of_stops hd⟩
  | stop o =>
    cases o with
    | returned result s => exact hcallers.keeps_giveBack hc hd
    | failed world => exact .inr ⟨_, reaches_of_stops hc, reaches_of_stops hd⟩
    | stuck world => exact .inr ⟨_, reaches_of_stops hc, reaches_of_stops hd⟩

end

section

variable {a : Artifact} {I : Interpretation ρ ω} {reply : ω → Bool} {gives : String → Bool}
variable {f : Frame ρ} {fs gs : List (Frame ρ)} {w : Logged ω} {rest : Code}
variable {kind : InvokeKind} {name desc : String}

/-- An own call of `put` comes to the same code on either side, noted once. -/
theorem keeps_put (ha : a.Extensible) (hI : Conventions a I gives) (hnative : Native a f)
    (hcallers : Relayed a f.gives fs gs)
    (hahead : f.ahead = .invoke kind a.name Store.put Store.putDesc :: rest) :
    Keeps (a.extended.program I reply gives).next (a.noted I reply gives).next (Aligned a)
      ⟨f, fs, w⟩ ⟨f, gs, w⟩ := by
  obtain ⟨m, hm⟩ := Option.isSome_iff_exists.1 ha.put
  obtain ⟨caller, hcaller, hcall⟩ := hnative.mem hahead
  have htakes : (I.logged reply).takes ⟨kind, a.name, Store.put, Store.putDesc⟩ = 3 :=
    (takes_logged I reply ha.foreign).trans (hI.put_takes caller hcaller kind hcall)
  have hc := Program.next_of_own (c := ⟨f, fs, w⟩) hahead
    (own?_invoke (a.extended.program I reply gives) kind Store.put Store.putDesc)
  have hd := Program.next_of_own (c := ⟨f, gs, w⟩) hahead
    (own?_invoke (a.noted I reply gives) kind Store.put Store.putDesc)
  match hstack : f.stack with
  | value :: key :: receiver :: st =>
    rw [enter_three ha.member?_put htakes hstack] at hc
    rw [enter_three hm htakes hstack] at hd
    obtain ⟨r, hr, hadvance⟩ := advances_put ha hI hm
    have hmem : m ∈ a.members := List.mem_of_find?_eq_some hm
    exact .inl ⟨_, _, .head hc hadvance, .single hd, ⟨rfl, rfl, native_enter hmem _ _,
      .relay hr (.cons (hnative.behind hahead _ _) hcallers)⟩⟩
  | [] | [_] | [_, _] =>
    have hfew : f.stack.length < (I.logged reply).takes
        ⟨kind, a.name, Store.put, Store.putDesc⟩ := by
      simp [htakes, hstack]
    rw [Program.enter_of_lt hfew] at hc hd
    exact .inr ⟨_, reaches_of_stops hc, reaches_of_stops hd⟩

/-- An own call of another member enters it on either side. -/
theorem keeps_other (ha : a.Extensible) (hnative : Native a f)
    (hcallers : Relayed a f.gives fs gs)
    (hahead : f.ahead = .invoke kind a.name name desc :: rest)
    (hput : ¬ (name = Store.put ∧ desc = Store.putDesc)) :
    Keeps (a.extended.program I reply gives).next (a.noted I reply gives).next (Aligned a)
      ⟨f, fs, w⟩ ⟨f, gs, w⟩ := by
  obtain ⟨caller, hcaller, hcall⟩ := hnative.mem hahead
  have hname : name ∉ Store.addedNames :=
    fun hname => ha.fresh name hname ⟨caller, hcaller, .inr ⟨kind, desc, hcall⟩⟩
  have hmember := Artifact.member?_extended_of_ne (a := a) hput hname
  have hc := Program.next_of_own (c := ⟨f, fs, w⟩) hahead
    (own?_invoke (a.extended.program I reply gives) kind name desc)
  have hd := Program.next_of_own (c := ⟨f, gs, w⟩) hahead
    (own?_invoke (a.noted I reply gives) kind name desc)
  cases hm : a.member? name desc with
  | none =>
    rw [Program.enter_of_none (hmember.trans hm)] at hc
    rw [Program.enter_of_none hm] at hd
    exact .inr ⟨_, reaches_of_stops hc, reaches_of_stops hd⟩
  | some m =>
    by_cases hfew : f.stack.length < (I.logged reply).takes ⟨kind, a.name, name, desc⟩
    · rw [Program.enter_of_lt hfew] at hc hd
      exact .inr ⟨_, reaches_of_stops hc, reaches_of_stops hd⟩
    · rw [Program.enter_of_not_lt (hmember.trans hm) hfew] at hc
      rw [Program.enter_of_not_lt hm hfew] at hd
      have hmem : m ∈ a.members := List.mem_of_find?_eq_some hm
      have hworld : w = (a.noted I reply gives).arrival name desc w := (if_neg hput).symm
      exact .inl ⟨_, _, .single hc, .single hd, ⟨rfl, hworld, native_enter hmem _ _,
        .cons (hnative.behind hahead _ _) hcallers⟩⟩

/-- **The extended store and the store stay in lockstep.** -/
theorem keeps_aligned (ha : a.Extensible) (hI : Conventions a I gives)
    (c d : Config ρ (Logged ω)) (h : Aligned a c d) :
    Keeps (a.extended.program I reply gives).next (a.noted I reply gives).next (Aligned a) c d := by
  obtain ⟨f, fs, w⟩ := c
  obtain ⟨g, gs, w'⟩ := d
  obtain ⟨rfl, rfl, hnative, hcallers⟩ := h
  dsimp only at hnative hcallers
  cases hahead : f.ahead with
  | nil =>
    exact .inr ⟨_, reaches_of_stops (Program.next_of_nil hahead),
      reaches_of_stops (Program.next_of_nil hahead)⟩
  | cons insn rest =>
    -- the extended store has the name of the store, so that it has the same own calls
    cases hown : (a.noted I reply gives).own? insn with
    | none =>
      exact keeps_resume hnative hcallers hahead _ (Program.next_of_other hahead hown)
        (Program.next_of_other hahead hown)
    | some callee =>
      obtain ⟨rfl, -⟩ := Program.eq_invoke_of_own? hown
      by_cases hput : callee.name = Store.put ∧ callee.desc = Store.putDesc
      · rw [hput.1, hput.2] at hahead
        exact keeps_put ha hI hnative hcallers hahead
      · exact keeps_other ha hnative hcallers hahead hput

end

/-! ## What is kept -/

/-- What an extended store does, told by what the store does. Runs with the same ending have the
same result, world and log. -/
structure Preserves (a extended : Artifact) (I : Interpretation ρ ω) (reply : ω → Bool)
    (gives : String → Bool) : Prop where
  /-- To note the own calls of `put` changes neither results nor worlds, whatever the logs. -/
  noted : ∀ name desc args world log log' (e : Ending ρ ω),
    (∃ e', (a.noted I reply gives).Runs name desc args ⟨world, log⟩ e' ∧
      e'.inWorld Logged.world = e) ↔
    ∃ e', (a.program I reply gives).Runs name desc args ⟨world, log'⟩ e' ∧
      e'.inWorld Logged.world = e
  /-- A member other than `put` does what it did, each own call of `put` being notified. -/
  other : ∀ m ∈ a.members, ¬ (m.name = Store.put ∧ m.desc = Store.putDesc) → ∀ args w e,
    (extended.program I reply gives).Runs m.name m.desc args w e ↔
      (a.noted I reply gives).Runs m.name m.desc args w e
  /-- The new `put` notifies once and then does what the first one did. -/
  put : ∀ receiver key value w e,
    (extended.program I reply gives).Runs Store.put Store.putDesc [receiver, key, value] w e ↔
      (a.noted I reply gives).Runs Store.put Store.putDesc [receiver, key, value] w.note e
  /-- The alternative slow path does what the first `put` did, without a notification. -/
  slow : ∀ receiver key value w e,
    (extended.program I reply gives).Runs Store.alternativeSlowPath Store.putDesc
        [receiver, key, value] w e ↔
      (a.noted I reply gives).Runs Store.put Store.putDesc [receiver, key, value] w e
  /-- The fast path does what `set` did, without a notification. -/
  fast : ∀ receiver key value w e,
    (extended.program I reply gives).Runs Store.fastPath Store.setDesc
        [receiver, key, value] w e ↔
      (a.noted I reply gives).Runs Store.set Store.setDesc [receiver, key, value] w e

section

variable {a : Artifact} {I : Interpretation ρ ω} {reply : ω → Bool} {gives : String → Bool}
variable {receiver key value : Value ρ} {w : Logged ω} {e : Ending ρ (Logged ω)}

/-- A run that comes to a member of the store below a relay ends as that member does. -/
theorem reaches_iff_of_relay (ha : a.Extensible) (hI : Conventions a I gives) {m : Member}
    (hm : m ∈ a.members) {g : Bool} {r : Frame ρ} (hr : Relay g r) {args : List (Value ρ)} :
    Reaches (a.extended.program I reply gives).next ⟨.enter g m args, [r], w⟩ e ↔
      Reaches (a.noted I reply gives).next ⟨.enter g m args, [], w⟩ e :=
  reaches_iff_of_lockstep (keeps_aligned ha hI)
    ⟨rfl, rfl, native_enter hm _ _, .relay hr (.nil _)⟩

/-- **Members other than `put` run as before**, apart from what is noted. -/
theorem runs_other_iff (ha : a.Extensible) (hI : Conventions a I gives) {m : Member}
    (hm : m ∈ a.members) (hput : ¬ (m.name = Store.put ∧ m.desc = Store.putDesc))
    {args : List (Value ρ)} :
    (a.extended.program I reply gives).Runs m.name m.desc args w e ↔
      (a.noted I reply gives).Runs m.name m.desc args w e := by
  have hmember := Artifact.member?_extended_of_ne (a := a) hput (ha.name_notMem hm)
  obtain ⟨m', hm'⟩ : ∃ m', a.member? m.name m.desc = some m' := by
    rw [← Option.isSome_iff_exists, Artifact.member?, List.find?_isSome]
    exact ⟨m, hm, Member.isNamed_iff.2 ⟨rfl, rfl⟩⟩
  rw [Program.runs_iff (hmember.trans hm'), Program.runs_iff hm']
  exact reaches_iff_of_lockstep (keeps_aligned ha hI)
    ⟨rfl, rfl, native_enter (List.mem_of_find?_eq_some hm') _ _, .nil _⟩

/-- **The new `put` runs as the old one**, once it has noted its call. -/
theorem runs_put_iff (ha : a.Extensible) (hI : Conventions a I gives) :
    (a.extended.program I reply gives).Runs Store.put Store.putDesc [receiver, key, value] w e ↔
      (a.noted I reply gives).Runs Store.put Store.putDesc [receiver, key, value] w.note e := by
  obtain ⟨m, hm⟩ := Option.isSome_iff_exists.1 ha.put
  obtain ⟨r, hr, hadvance⟩ := advances_put ha hI hm
  rw [Program.runs_iff ha.member?_put, Program.runs_iff hm]
  exact (reaches_iff_of_advances hadvance).trans
    (reaches_iff_of_relay ha hI (List.mem_of_find?_eq_some hm) hr)

/-- The slow path is the old `put`. -/
theorem runs_slow_iff (ha : a.Extensible) (hI : Conventions a I gives) :
    (a.extended.program I reply gives).Runs Store.alternativeSlowPath Store.putDesc
        [receiver, key, value] w e ↔
      (a.noted I reply gives).Runs Store.put Store.putDesc [receiver, key, value] w e := by
  obtain ⟨m, hm⟩ := Option.isSome_iff_exists.1 ha.put
  obtain ⟨r, hr, hadvance⟩ := advances_kept reply ha hI hm
    (f := .enter (gives Store.putDesc) (Store.alternativeSlowPathMember a.name)
      [receiver, key, value]) rfl rfl rfl rfl rfl rfl
  rw [Program.runs_iff ha.member?_alternativeSlowPath, Program.runs_iff hm]
  exact (reaches_iff_of_advances hadvance).trans
    (reaches_iff_of_relay ha hI (List.mem_of_find?_eq_some hm) hr)

/-- The fast path is the old `set`. -/
theorem runs_fast_iff (ha : a.Extensible) (hI : Conventions a I gives) :
    (a.extended.program I reply gives).Runs Store.fastPath Store.setDesc
        [receiver, key, value] w e ↔
      (a.noted I reply gives).Runs Store.set Store.setDesc [receiver, key, value] w e := by
  obtain ⟨m, hm⟩ := Option.isSome_iff_exists.1 ha.set
  have hset : a.extended.member? Store.set Store.setDesc = some m :=
    (Artifact.member?_extended_of_ne (by decide) (by decide)).trans hm
  have htakes := (takes_logged I reply ha.foreign).trans hI.set_takes
  have hrelay : Relay (gives Store.setDesc)
      { Frame.enter (gives Store.setDesc) (Store.fastPathMember a.name) [receiver, key, value]
        with ahead := [.ret] } := by
    refine ⟨rfl, rfl, ?_⟩
    rw [hI.set_gives]
    rfl
  rw [Program.runs_iff ha.member?_fastPath, Program.runs_iff hm]
  exact (reaches_iff_of_advances (advances_delegate (P := a.extended.program I reply gives)
    hset htakes rfl rfl rfl rfl)).trans
    (reaches_iff_of_relay ha hI (List.mem_of_find?_eq_some hm) hrelay)

/-- An extension preserves what the store does, whatever calls and types mean. -/
theorem preserves_extended (ha : a.Extensible) (hI : Conventions a I gives) :
    Preserves a a.extended I reply gives where
  noted name desc args world log log' e := by
    rw [← Program.runs_iff_of_seenThrough (a.noted_seenThrough I reply gives),
      ← Program.runs_iff_of_seenThrough (a.program_seenThrough I reply gives)]
  other _ hm hput _ _ _ := runs_other_iff ha hI hm hput
  put _ _ _ _ _ := runs_put_iff ha hI
  slow _ _ _ _ _ := runs_slow_iff ha hI
  fast _ _ _ _ _ := runs_fast_iff ha hI

end

/-- **Extending a store preserves its behaviour up to notifications**, in every world, for every
answer to calls of others and every reply of the agent, and provides the entry points that patched
callers assume. -/
theorem extension_preserves {bytes : Bytes} {a : Artifact} {result : Extended}
    (hdecode : Artifact.decode bytes = .ok a) (ha : a.Extensible)
    (hextend : extendStore bytes = .ok result) :
    result.transformed = true ∧ ∃ extended, Artifact.decode result.bytes = .ok extended ∧
      ∀ (ρ ω : Type) (I : Interpretation ρ ω) (reply : ω → Bool) (gives : String → Bool),
        Conventions a I gives → Preserves a extended I reply gives := by
  obtain ⟨a', hdecode', hresult⟩ := extendStore_eq_ok_iff.1 hextend
  obtain rfl : a = a' := Except.ok.inj (hdecode.symm.trans hdecode')
  rcases hresult with ⟨hmarked, -⟩ | ⟨-, b, hb, bytes', hencode, rfl⟩
  · rw [ha.unmarked] at hmarked
    cases hmarked
  · obtain rfl : a.extended = b := Except.ok.inj (ha.extend_eq.symm.trans hb)
    exact ⟨rfl, a.extended, Artifact.decode_encode hencode,
      fun ρ ω I reply gives hI => preserves_extended ha hI⟩

/-! ## A store that calls its own put -/

namespace Replacing

/-- A member that calls another with the receiver, the key and the value. -/
def passing (name desc : String) (kind : InvokeKind) (owner target : String) (last : Insn) :
    Member where
  name := name
  desc := desc
  access := .pub
  code := [.load 0, .load 1, .load 2, .invoke kind owner target desc, last]

/-- A store over a table, with a member that puts. -/
def store : Artifact where
  name := "acme/Store"
  supertypes := [Store.storeInterface]
  members := [
    passing Store.put Store.putDesc .special "acme/Table" "insert" .retValue,
    passing Store.set Store.setDesc .special "acme/Table" "assign" .ret,
    passing "replace" Store.putDesc .virtual "acme/Store" Store.put .retValue]

theorem extensible : store.Extensible where
  foreign := by decide
  unmarked := by decide
  distinct := by decide
  put := by decide
  set := by decide
  fresh := by
    simp [Artifact.Mentions, store, passing, Store.addedNames, Store.keptSlowPath, Store.fastPath,
      Store.alternativeSlowPath, Store.put, Store.set]

/-- Every call takes three values, counts as one in the world, and gives the count back where a
result is due. -/
def counting : Interpretation Unit Nat where
  instanceOf _ _ _ := false
  casts _ _ _ := true
  takes _ := 3
  call callee _ n :=
    .returned (if callee.desc = Store.putDesc then some (.number n.toInt64) else none) (n + 1)

/-- Only a `put` gives a result back. -/
def gives (desc : String) : Bool :=
  desc = Store.putDesc

theorem conventions : Conventions store counting gives where
  put_takes _ _ _ _ := rfl
  kept_takes := rfl
  set_takes := rfl
  put_gives := by decide
  set_gives := by decide

/-- Replacing a value through the extended store notifies once, and inserts it. -/
theorem extension_preserves_store : ∃ bytes result extended,
    Artifact.decode bytes = .ok store ∧ extendStore bytes = .ok result ∧
      Artifact.decode result.bytes = .ok extended ∧ ∀ receiver key value,
        (extended.program counting (fun _ => true) gives).Runs "replace" Store.putDesc
          [receiver, key, value] ⟨4, []⟩ (.returned (some (.number 4)) ⟨5, [4]⟩) := by
  have hlength : store.document.length ≤ Frame.defaultMax := by decide +kernel
  have hlength' : store.extended.document.length ≤ Frame.defaultMax := by decide +kernel
  obtain ⟨bytes, hencode⟩ := Artifact.encode_of_length_le_default hlength
  obtain ⟨bytes', hencode'⟩ := Artifact.encode_of_length_le_default hlength'
  have hdecode : Artifact.decode bytes = .ok store := Artifact.decode_encode hencode
  have hextend : extendStore bytes = .ok ⟨bytes', true⟩ := extendStore_eq_ok_iff.2
    ⟨store, hdecode, .inr ⟨extensible.unmarked, store.extended, extensible.extend_eq, bytes',
      hencode', rfl⟩⟩
  obtain ⟨-, extended, hextended, hpreserves⟩ := extension_preserves hdecode extensible hextend
  refine ⟨bytes, _, extended, hdecode, hextend, hextended, fun receiver key value => ?_⟩
  have hpreserved := hpreserves Unit Nat counting (fun _ => true) gives conventions
  have hreplace := hpreserved.other (passing "replace" Store.putDesc .virtual "acme/Store" Store.put
    .retValue) (by simp [store]) (by decide) [receiver, key, value]
  exact (hreplace _ _).2 ⟨_, rfl, 11, rfl⟩

end Replacing

end CallPatch
