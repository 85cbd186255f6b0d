import SymbolicVM.Proofs.Machine.Variables

/-!
# The environments that frames own

A frame owns at most one environment, the one that it created when it first evaluated a function
literal, and it writes its variables both to its locals and there. `State.WellOwned` says that this
goes well: no two frames share an environment, the outermost frame has none, and an owned
environment binds exactly the names of its frame's locals.

The invariant is kept by every single change that a delta makes, and so by a delta as a whole
(`State.WellOwned.effect`) if the environment that it creates, if any, is new and starts with the
locals of the current frame (`Delta.Captures`).
-/

namespace SymbolicVM

/-- The environment that a frame owns is in the arena and binds the names of the frame's locals. -/
def Frame.InStep (closures : Dict Environment) (f : Frame) : Prop :=
  ∀ id, f.ownedEnv = some id → ∃ env, closures.get? id = some env ∧
    ∀ name, name ∈ env.bindings.keys ↔ name ∈ f.locals.keys

/-- The frames own no environment in common. -/
def Frame.Apart (f g : Frame) : Prop :=
  ∀ id, f.ownedEnv = some id → g.ownedEnv ≠ some id

/-- How the frames of a stack own environments of an arena. -/
structure OwnedStack (closures : Dict Environment) (frames : List Frame) : Prop where
  /-- No two frames own the same environment. -/
  distinct : frames.Pairwise Frame.Apart
  /-- The outermost frame owns none. -/
  outermost : ∀ f, frames.getLast? = some f → f.ownedEnv = none
  /-- Every owned environment binds the names of its frame's locals. -/
  inStep : ∀ f ∈ frames, f.InStep closures

/-- How the frames of a state own its environments. -/
def State.WellOwned (s : State) : Prop :=
  OwnedStack s.closures s.frames

/-- The environment that a delta creates is the current frame's: this frame owns none yet and is not
the outermost. The environment starts with the frame's locals, and its parent is the environment
that the frame reads through. -/
def Delta.Captures (d : Delta) (s : State) : Prop :=
  ∀ c, d.newClosure = some c → ∃ frame caller callers, s.frames = frame :: caller :: callers ∧
    frame.ownedEnv = none ∧
    c = { id := IdKind.environment.name s.counter, bindings := frame.locals,
          parent := frame.closureEnv }

/-! ### Frames and stacks -/

variable {closures : Dict Environment} {frames callers : List Frame} {f g : Frame} {id : String}
  {env : Environment}

namespace Frame

theorem inStep_of_ownedEnv_eq_none (h : f.ownedEnv = none) : f.InStep closures := by
  intro id hid
  rw [h] at hid
  contradiction

theorem apart_of_ownedEnv_eq_none (h : f.ownedEnv = none) : f.Apart g := by
  intro id hid
  rw [h] at hid
  contradiction

/-- Another environment in the arena makes no difference to a frame. -/
theorem InStep.insert_of_ne (h : f.InStep closures) (hne : f.ownedEnv ≠ some id) :
    f.InStep (closures.insert id env) := by
  intro owned howned
  obtain ⟨e, hget, hnames⟩ := h owned howned
  have hother : id ≠ owned := by
    rintro rfl
    exact hne howned
  exact ⟨e, (Dict.get?_insert_of_ne _ _ hother).trans hget, hnames⟩

/-- Nor does a new value for a name that an environment binds. -/
theorem InStep.rebind (h : f.InStep closures) (henv : closures.get? id = some env) {name : String}
    (hbound : name ∈ env.bindings.keys) (v : Value) :
    f.InStep (closures.insert id { env with bindings := env.bindings.insert name v }) := by
  intro owned howned
  obtain ⟨e, hget, hnames⟩ := h owned howned
  by_cases hid : id = owned
  · subst hid
    obtain rfl := Option.some.inj (henv.symm.trans hget)
    refine ⟨_, Dict.get?_insert_self _ _ _, fun other => ?_⟩
    rw [Dict.mem_keys_insert, ← hnames other]
    constructor
    · rintro (rfl | hmem)
      · exact hbound
      · exact hmem
    · exact .inr
  · exact ⟨e, (Dict.get?_insert_of_ne _ _ hid).trans hget, hnames⟩

/-- A name may be added to a frame's locals if it is added to its environment as well. -/
theorem InStep.insert_both (h : f.InStep closures) (hid : f.ownedEnv = some id)
    (henv : closures.get? id = some env) (name : String) (v : Value) :
    InStep (closures.insert id { env with bindings := env.bindings.insert name v })
      { f with locals := f.locals.insert name v } := by
  intro owned howned
  obtain rfl := Option.some.inj (hid.symm.trans howned)
  obtain ⟨e, hget, hnames⟩ := h id hid
  obtain rfl := Option.some.inj (henv.symm.trans hget)
  refine ⟨_, Dict.get?_insert_self _ _ _, fun other => ?_⟩
  rw [Dict.mem_keys_insert, Dict.mem_keys_insert, hnames other]

end Frame

namespace OwnedStack

/-- The conditions on a stack, one frame at a time. -/
theorem cons_iff :
    OwnedStack closures (f :: callers) ↔
      (callers = [] → f.ownedEnv = none) ∧ f.InStep closures ∧ (∀ g ∈ callers, f.Apart g) ∧
        OwnedStack closures callers := by
  constructor
  · rintro ⟨hdistinct, houtermost, hinStep⟩
    obtain ⟨hapart, hrest⟩ := List.pairwise_cons.mp hdistinct
    refine ⟨?_, hinStep f List.mem_cons_self, hapart, hrest, fun g hg => ?_,
      fun g hg => hinStep g (List.mem_cons_of_mem _ hg)⟩
    · rintro rfl
      exact houtermost f rfl
    · apply houtermost g
      rw [List.getLast?_cons, hg]
      rfl
  · rintro ⟨hlast, hinStep, hapart, hrest⟩
    refine ⟨List.pairwise_cons.mpr ⟨hapart, hrest.distinct⟩, fun g hg => ?_, fun g hg => ?_⟩
    · cases callers with
      | nil =>
        obtain rfl : f = g := by simpa using hg
        exact hlast rfl
      | cons caller callers =>
        rw [List.getLast?_cons_cons] at hg
        exact hrest.outermost g hg
    · rcases List.mem_cons.mp hg with rfl | hg
      · exact hinStep
      · exact hrest.inStep g hg

/-- The arena may change as long as every frame stays in step. -/
theorem of_inStep {closures' : Dict Environment} (h : OwnedStack closures frames)
    (hinStep : ∀ f ∈ frames, f.InStep closures') : OwnedStack closures' frames :=
  ⟨h.distinct, h.outermost, hinStep⟩

/-- The current frame may change in what has nothing to do with its variables. -/
theorem replace (h : OwnedStack closures (f :: callers)) (howned : g.ownedEnv = f.ownedEnv)
    (hlocals : g.locals = f.locals) : OwnedStack closures (g :: callers) := by
  obtain ⟨hlast, hinStep, hapart, hrest⟩ := cons_iff.mp h
  refine cons_iff.mpr ⟨fun hnil => howned.trans (hlast hnil), ?_, ?_, hrest⟩
  · unfold Frame.InStep
    rw [howned, hlocals]
    exact hinStep
  · unfold Frame.Apart
    rw [howned]
    exact hapart

/-- A frame that owns nothing may stand on top of any stack. -/
theorem cons_of_ownedEnv_eq_none (h : OwnedStack closures callers) (hf : f.ownedEnv = none) :
    OwnedStack closures (f :: callers) :=
  cons_iff.mpr ⟨fun _ => hf, Frame.inStep_of_ownedEnv_eq_none hf,
    fun _ _ => Frame.apart_of_ownedEnv_eq_none hf, h⟩

end OwnedStack

/-! ### Single changes of a state -/

namespace State.WellOwned

variable {s : State}

theorem start : ({} : State).WellOwned :=
  OwnedStack.cons_of_ownedEnv_eq_none ⟨.nil, by simp, by simp⟩ rfl

theorem modifyCurrent (h : s.WellOwned) {change : Frame → Frame}
    (howned : ∀ f, (change f).ownedEnv = f.ownedEnv) (hlocals : ∀ f, (change f).locals = f.locals) :
    (s.modifyCurrent change).WellOwned := by
  unfold WellOwned
  rw [closures_modifyCurrent]
  cases hf : s.frames with
  | nil =>
    unfold State.modifyCurrent
    rw [hf]
    exact h
  | cons f callers =>
    rw [frames_modifyCurrent hf]
    unfold WellOwned at h
    rw [hf] at h
    exact h.replace (howned f) (hlocals f)

theorem writeRegister (h : s.WellOwned) (reg : String) (v : Value) :
    (s.writeRegister reg v).WellOwned :=
  h.modifyCurrent (fun _ => rfl) (fun _ => rfl)

theorem stampReturn (h : s.WellOwned) (label : String) (offset : Nat) (register : Option String) :
    (s.stampReturn label offset register).WellOwned :=
  h.modifyCurrent (fun _ => rfl) (fun _ => rfl)

theorem pushFrame (h : s.WellOwned) (p : CallPush) : (s.pushFrame p).WellOwned :=
  OwnedStack.cons_of_ownedEnv_eq_none h rfl

theorem popFrame (h : s.WellOwned) : s.popFrame.1.WellOwned := by
  unfold State.popFrame
  split
  · rename_i f caller callers hf
    unfold WellOwned at h
    rw [hf] at h
    exact (OwnedStack.cons_iff.mp h).2.2.2
  · exact h

/-- A new environment with the current frame's locals, which this frame owns from then on. -/
theorem installClosure (h : s.WellOwned) {c : NewClosure} {f caller : Frame} {callers : List Frame}
    (hf : s.frames = f :: caller :: callers) (hnew : c.id ∉ s.closures.keys)
    (hlocals : c.bindings = f.locals) : (s.installClosure c).WellOwned := by
  unfold WellOwned at h
  rw [hf] at h
  obtain ⟨-, -, -, hrest⟩ := OwnedStack.cons_iff.mp h
  -- the environments that the callers own are in the arena, and the new one was not
  have hother : ∀ g ∈ caller :: callers, g.ownedEnv ≠ some c.id := by
    intro g hg howned
    obtain ⟨env, hget, -⟩ := hrest.inStep g hg c.id howned
    exact hnew (Dict.mem_keys_of_get? hget)
  have hclosures : (s.installClosure c).closures =
      s.closures.insert c.id ⟨c.bindings, c.parent⟩ := closures_modifyCurrent _ _
  have hframes : (s.installClosure c).frames =
      { f with ownedEnv := some c.id } :: caller :: callers :=
    frames_modifyCurrent (s := { s with closures := s.closures.insert c.id _ }) hf _
  unfold WellOwned
  rw [hclosures, hframes]
  refine OwnedStack.cons_iff.mpr ⟨by simp, ?_, ?_, ?_⟩
  · intro id hid
    obtain rfl := Option.some.inj hid
    refine ⟨_, Dict.get?_insert_self _ _ _, fun name => ?_⟩
    rw [hlocals]
  · intro g hg id hid howned
    obtain rfl := Option.some.inj hid
    exact hother g hg howned
  · exact hrest.of_inStep fun g hg => (hrest.inStep g hg).insert_of_ne (hother g hg)

/-- Storing a variable keeps owned environments in step: a name that is bound in a chain is bound
there already, and any other enters the locals and the owned environment together. -/
theorem store (h : s.WellOwned) (name : String) (v : Value) : (s.store name v).WellOwned := by
  cases hf : s.frames with
  | nil =>
    unfold State.store current?
    rw [hf]
    exact h
  | cons f callers =>
    rcases store_cases hf name v with ⟨id, env, -, hholder, henv, hstore⟩ | hstore
    · have hbound : name ∈ env.bindings.keys :=
        Dict.contains_iff.mp (List.find?_eq_some_iff_append.mp hholder).1
      rw [hstore]
      exact OwnedStack.of_inStep h fun g hg => (h.inStep g hg).rebind henv hbound v
    · unfold WellOwned at h
      rw [hf] at h
      obtain ⟨hlast, hinStep, hapart, hrest⟩ := OwnedStack.cons_iff.mp h
      unfold WellOwned
      rw [hstore, closures_writeLocal, frames_writeLocal_bindOwned hf]
      rcases bindOwned_cases s f name v with ⟨hnone, hsame⟩ | ⟨id, env, hid, henv, hbound⟩
      · have howned : f.ownedEnv = none := by
          cases howned : f.ownedEnv with
          | none => rfl
          | some id =>
            obtain ⟨env, hget, -⟩ := hinStep id howned
            unfold ownedEnvironment? at hnone
            rw [howned, Option.bind_some, hget] at hnone
            contradiction
        rw [hsame]
        exact OwnedStack.cons_of_ownedEnv_eq_none hrest howned
      · rw [hbound]
        refine OwnedStack.cons_iff.mpr
          ⟨hlast, hinStep.insert_both hid henv name v, hapart, hrest.of_inStep fun g hg => ?_⟩
        exact (hrest.inStep g hg).insert_of_ne (hapart g hg id hid)

/-- The arguments of a call become locals of the new frame, which owns nothing yet. -/
theorem foldl_writeLocal (es : List (String × Value)) (hf : s.frames = f :: callers)
    (howned : f.ownedEnv = none) (h : s.WellOwned) :
    (es.foldl (fun s e => s.writeLocal e.1 e.2) s).WellOwned := by
  induction es generalizing s f with
  | nil => exact h
  | cons e es ih =>
    have hframes : (s.writeLocal e.1 e.2).frames =
        { f with locals := f.locals.insert e.1 e.2 } :: callers := frames_modifyCurrent hf _
    refine ih hframes howned ?_
    unfold WellOwned at h ⊢
    rw [closures_writeLocal, hframes]
    rw [hf] at h
    exact OwnedStack.cons_of_ownedEnv_eq_none (OwnedStack.cons_iff.mp h).2.2.2 howned

/-! ### A delta as a whole -/

variable {d : Delta}

theorem foldl {α : Type} (step : State → α → State)
    (hstep : ∀ (t : State) (a : α), t.WellOwned → (step t a).WellOwned) (l : List α)
    (h : s.WellOwned) : (l.foldl step s).WellOwned := by
  induction l generalizing s with
  | nil => exact h
  | cons a l ih => exact ih (hstep s a h)

theorem install (h : s.WellOwned) (hcaptures : d.Captures s)
    (hnew : ∀ c, d.newClosure = some c → c.id ∉ s.closures.keys) : (s.install d).WellOwned := by
  have hobjects : (d.newObjects.foldl installObject s).WellOwned :=
    foldl installObject (fun _ _ ht => ht) d.newObjects h
  have hframes : (d.newObjects.foldl installObject s).frames = s.frames := by
    apply foldl_untouched frames
    intro t obj
    rfl
  unfold State.install
  cases hc : d.newClosure with
  | none => exact hobjects
  | some c =>
    obtain ⟨f, caller, callers, hf, -, rfl⟩ := hcaptures c hc
    refine hobjects.installClosure (hframes.trans hf) ?_ rfl
    rw [closures_foldl_installObject]
    exact hnew _ hc

theorem record (h : s.WellOwned) (d : Delta) : (s.record d).WellOwned := by
  have hregisters := foldl _ (fun t (e : String × Value) ht => ht.writeRegister e.1 e.2)
    d.registerWrites.entries h
  -- neither fields nor path conditions are on the stack or in the arena
  have hfields := foldl writeField (fun _ _ ht => ht) d.heapWrites hregisters
  unfold State.record
  cases d.pathCondition with
  | none => exact hfields
  | some cond => exact hfields

theorem moveStack (h : s.WellOwned) (d : Delta) : (s.moveStack d).1.WellOwned := by
  have hvars : ((d.callPush.elim s s.pushFrame).writeVars d.callPush.isSome
      d.varWrites).WellOwned := by
    cases d.callPush with
    | none => exact foldl _ (fun t (e : String × Value) ht => ht.store e.1 e.2) _ h
    | some p => exact foldl_writeLocal d.varWrites.entries rfl rfl (h.pushFrame p)
  unfold State.moveStack
  dsimp only
  split_ifs
  · exact hvars.popFrame
  · exact hvars

/-- **A delta keeps the owned environments in step** if the environment that it creates is new and
the current frame's. -/
theorem effect (h : s.WellOwned) (hcaptures : d.Captures s)
    (hnew : ∀ c, d.newClosure = some c → c.id ∉ s.closures.keys) :
    (s.effect d).1.WellOwned :=
  ((h.install hcaptures hnew).record d).moveStack d

/-! ### Reading back -/

/-- The environment that the current frame owns binds local names only. -/
theorem ownsLocals (h : s.WellOwned) (hf : f ∈ s.frames) : s.OwnsLocals f := by
  intro env henv name hname
  unfold ownedEnvironment? at henv
  obtain ⟨id, hid, hget⟩ := Option.bind_eq_some_iff.mp henv
  obtain ⟨e, hget', hnames⟩ := h.inStep f hf id hid
  obtain rfl := Option.some.inj (hget.symm.trans hget')
  exact (hnames name).mp hname

end State.WellOwned

end SymbolicVM
