import SymbolicVM.Proofs.Machine.Stack
import SymbolicVM.Proofs.Machine.Values

/-!
# Storing and reading a variable

Storing a variable binds the name in one environment of the arena, or makes it a local and binds it
in the environment that the frame owns (`State.store_cases`). Either way the environments of the
arena keep their names and their parents, so every chain of environments passes the same ones
as before, one of them with one binding changed (`State.envChainFrom_bindIn`).

From this follows what other variables are read as after a store, in any state
(`State.lookup?_store_of_ne`). What the stored variable itself is read as depends on the environment
that the frame owns, which is read before the locals: it must bind nothing that is not a local
(`State.lookup?_store_self`).
-/

namespace SymbolicVM

namespace State

/-- Makes a variable local to the current frame. -/
def writeLocal (s : State) (name : String) (v : Value) : State :=
  s.modifyCurrent fun frame => { frame with locals := frame.locals.insert name v }

/-- Binds a name in the environment that a frame owns, if it owns one. -/
def bindOwned (s : State) (frame : Frame) (name : String) (v : Value) : State :=
  match frame.ownedEnv with
  | some id =>
    match s.closures.get? id with
    | some env => s.bindIn id env name v
    | none => s
  | none => s

variable {s : State} {frame : Frame} {callers : List Frame} {id : String} {env : Environment}
  {name : String} {v : Value}

theorem closures_modifyCurrent (s : State) (change : Frame → Frame) :
    (s.modifyCurrent change).closures = s.closures := by
  unfold modifyCurrent
  split
  · rfl
  · rfl

theorem closures_foldl_installObject (s : State) (objects : List NewObject) :
    (objects.foldl installObject s).closures = s.closures := by
  apply foldl_untouched closures
  intro u obj
  rfl

theorem closures_writeLocal (s : State) (name : String) (v : Value) :
    (s.writeLocal name v).closures = s.closures :=
  closures_modifyCurrent s _

theorem bindOwned_cases (s : State) (frame : Frame) (name : String) (v : Value) :
    (s.ownedEnvironment? frame = none ∧ s.bindOwned frame name v = s) ∨
      ∃ id env, frame.ownedEnv = some id ∧ s.closures.get? id = some env ∧
        s.bindOwned frame name v = s.bindIn id env name v := by
  unfold bindOwned ownedEnvironment?
  cases frame.ownedEnv with
  | none => exact .inl ⟨rfl, rfl⟩
  | some id =>
    dsimp only
    cases henv : s.closures.get? id with
    | none => exact .inl ⟨henv, rfl⟩
    | some env => exact .inr ⟨id, env, rfl, henv, rfl⟩

/-- **What storing a variable does.** A name that is not local and bound in the closure chain is
bound there anew; any other becomes local, and is bound in the owned environment. -/
theorem store_cases (hf : s.frames = frame :: callers) (name : String) (v : Value) :
    (∃ id env, name ∉ frame.locals.keys ∧
      (s.envChain frame.closureEnv).find? (fun e => e.2.bindings.contains name) = some (id, env) ∧
      s.closures.get? id = some env ∧ s.store name v = s.bindIn id env name v) ∨
    s.store name v = (s.bindOwned frame name v).writeLocal name v := by
  have hcurrent : s.current? = some frame := by
    unfold current?
    rw [hf]
    rfl
  unfold store
  rw [hcurrent]
  dsimp only
  by_cases hlocal : frame.locals.contains name = true
  · rw [if_pos hlocal]
    exact .inr rfl
  · rw [if_neg hlocal]
    cases hholder : (s.envChain frame.closureEnv).find? fun e => e.2.bindings.contains name with
    | none => exact .inr rfl
    | some e =>
      have henv := get?_of_mem_envChainFrom (List.mem_of_find?_eq_some hholder)
      exact .inl ⟨e.1, e.2, fun hmem => hlocal (Dict.contains_iff.mpr hmem), rfl, henv, rfl⟩

/-! ### Chains after a name is bound -/

/-- An environment of a chain after a name is bound in the environment `id`. -/
def rebind (id name : String) (v : Value) (e : String × Environment) : String × Environment :=
  if e.1 = id then (e.1, { e.2 with bindings := e.2.bindings.insert name v }) else e

/-- **Binding a name changes no chain but in this binding.** The parents are as before, so a chain
passes the same environments. -/
theorem envChainFrom_bindIn (henv : s.closures.get? id = some env) (fuel : Nat)
    (start : Option String) :
    envChainFrom (s.bindIn id env name v).closures fuel start =
      (envChainFrom s.closures fuel start).map (rebind id name v) := by
  induction fuel generalizing start with
  | zero => rfl
  | succ fuel ih =>
    cases start with
    | none => rfl
    | some first =>
      unfold envChainFrom
      have hget : (s.bindIn id env name v).closures.get? first =
          (s.closures.get? first).map fun e => (rebind id name v (first, e)).2 := by
        unfold bindIn rebind
        rw [Dict.get?_insert]
        by_cases hid : id = first
        · subst hid
          simp [henv]
        · simp [hid, Ne.symm hid]
      rw [hget]
      cases hfirst : s.closures.get? first with
      | none => rfl
      | some e =>
        -- the parent of an environment is the same whether it is the one that is bound in or not
        have hparent : (rebind id name v (first, e)).2.parent = e.parent := by
          unfold rebind
          split_ifs <;> rfl
        have hname : (first, (rebind id name v (first, e)).2) = rebind id name v (first, e) := by
          unfold rebind
          split_ifs <;> rfl
        simp only [Option.map_some, List.map_cons, ih, hparent, hname]

theorem size_bindIn (henv : s.closures.get? id = some env) :
    (s.bindIn id env name v).closures.size = s.closures.size :=
  Dict.size_insert_of_mem (Dict.mem_keys_of_get? henv) _

theorem envChain_bindIn (henv : s.closures.get? id = some env) (start : Option String) :
    (s.bindIn id env name v).envChain start = (s.envChain start).map (rebind id name v) := by
  unfold envChain
  rw [size_bindIn henv]
  exact envChainFrom_bindIn henv _ start

theorem chainLookup?_eq (chain : List (String × Environment)) (name : String) :
    chainLookup? chain name = chain.findSome? fun e => e.2.bindings.get? name := rfl

/-- Another name is read through a chain as before. -/
theorem chainLookup?_map_rebind {other : String} (hne : other ≠ name)
    (chain : List (String × Environment)) :
    chainLookup? (chain.map (rebind id name v)) other = chainLookup? chain other := by
  rw [chainLookup?_eq, chainLookup?_eq, List.findSome?_map]
  congr 1
  funext e
  unfold rebind
  dsimp only [Function.comp]
  split_ifs
  · exact Dict.get?_insert_of_ne _ _ (Ne.symm hne)
  · rfl

/-- The nearest environment that binds a name is the one in which a store finds it, so the chain
reads the stored value. -/
theorem chainLookup?_map_rebind_self {chain : List (String × Environment)}
    (hchain : ∀ e ∈ chain, s.closures.get? e.1 = some e.2)
    (hholder : chain.find? (fun e => e.2.bindings.contains name) = some (id, env)) :
    chainLookup? (chain.map (rebind id name v)) name = some v := by
  obtain ⟨hbound, before, after, rfl, hbefore⟩ := List.find?_eq_some_iff_append.mp hholder
  have henv : s.closures.get? id = some env := hchain (id, env) (by simp)
  -- none of the environments before binds the name, so none of them is the one that is bound in
  have hskipped : ∀ e ∈ before, ((rebind id name v e).2.bindings.get? name) = none := by
    intro e he
    have hnot : e.2.bindings.contains name = false := by simpa using hbefore e he
    have hother : e.1 ≠ id := by
      intro heq
      have hsame : s.closures.get? e.1 = some e.2 := hchain e (by simp [he])
      rw [heq, henv] at hsame
      obtain rfl := Option.some.inj hsame
      exact Bool.noConfusion (hnot.symm.trans hbound)
    unfold rebind
    rw [if_neg hother]
    simpa [Dict.contains] using hnot
  have hfound : (rebind id name v (id, env)).2.bindings.get? name = some v := by
    unfold rebind
    rw [if_pos rfl, Dict.get?_insert_self]
  have hnone : (before.map (rebind id name v)).findSome?
      (fun e => e.2.bindings.get? name) = none := by
    rw [List.findSome?_eq_none_iff]
    intro e he
    obtain ⟨e', he', rfl⟩ := List.mem_map.mp he
    exact hskipped e' he'
  rw [chainLookup?_eq, List.map_append, List.map_cons, List.findSome?_append, hnone,
    List.findSome?_cons, hfound]
  rfl

/-! ### Reading after a store -/

/-- What a frame reads depends on the arena and on the frame alone. -/
theorem lookupIn?_of_closures_eq {t : State} (h : t.closures = s.closures) (frame : Frame)
    (name : String) : t.lookupIn? frame name = s.lookupIn? frame name := by
  unfold lookupIn? ownedEnvironment? envChain
  rw [h]

/-- The bindings of a frame's owned environment after a name is bound in an environment. -/
theorem ownedEnvironment?_bindIn (s : State) (id : String) (env : Environment) (name : String)
    (v : Value) (frame : Frame) :
    (s.bindIn id env name v).ownedEnvironment? frame =
      if frame.ownedEnv = some id then some { env with bindings := env.bindings.insert name v }
      else s.ownedEnvironment? frame := by
  unfold ownedEnvironment? bindIn
  cases frame.ownedEnv with
  | none => rfl
  | some owned =>
    simp only [Option.bind_some, Dict.get?_insert, Option.some.injEq, eq_comm]

theorem lookupIn?_bindIn_of_ne (henv : s.closures.get? id = some env) {other : String}
    (hne : other ≠ name) (frame : Frame) :
    (s.bindIn id env name v).lookupIn? frame other = s.lookupIn? frame other := by
  have howned : ((s.bindIn id env name v).ownedEnvironment? frame).bind
      (fun e => e.bindings.get? other) =
        (s.ownedEnvironment? frame).bind fun e => e.bindings.get? other := by
    rw [ownedEnvironment?_bindIn]
    split_ifs with hid
    · unfold ownedEnvironment?
      rw [hid, Option.bind_some, Option.bind_some, henv, Option.bind_some]
      exact Dict.get?_insert_of_ne _ _ (Ne.symm hne)
    · rfl
  unfold lookupIn?
  rw [howned, envChain_bindIn henv, chainLookup?_map_rebind hne]

theorem lookupIn?_bindOwned_of_ne (owner : Frame) {other : String} (hne : other ≠ name)
    (frame : Frame) :
    (s.bindOwned owner name v).lookupIn? frame other = s.lookupIn? frame other := by
  rcases bindOwned_cases s owner name v with ⟨-, hsame⟩ | ⟨id, env, -, henv, hbound⟩
  · rw [hsame]
  · rw [hbound, lookupIn?_bindIn_of_ne henv hne]

theorem frames_bindOwned (s : State) (frame : Frame) (name : String) (v : Value) :
    (s.bindOwned frame name v).frames = s.frames := by
  rcases bindOwned_cases s frame name v with ⟨-, h⟩ | ⟨id, env, -, -, h⟩
  · rw [h]
  · rw [h]
    rfl

/-- The stack after a variable is made local. -/
theorem frames_writeLocal_bindOwned (hf : s.frames = frame :: callers) :
    ((s.bindOwned frame name v).writeLocal name v).frames =
      { frame with locals := frame.locals.insert name v } :: callers :=
  frames_modifyCurrent ((frames_bindOwned s frame name v).trans hf) _

theorem lookup?_eq_of_frames {t : State} (hf : t.frames = frame :: callers) (name : String) :
    t.lookup? name =
      (t.lookupIn? frame name).or (callers.findSome? fun f => t.lookupIn? f name) := by
  unfold lookup?
  rw [hf, List.findSome?_cons]
  cases t.lookupIn? frame name <;> rfl

/-- **Storing a variable changes no other one**, in whatever state. -/
theorem lookup?_store_of_ne (s : State) {other : String} (hne : other ≠ name) :
    (s.store name v).lookup? other = s.lookup? other := by
  cases hf : s.frames with
  | nil =>
    unfold store current?
    rw [hf]
    rfl
  | cons frame callers =>
    rcases store_cases hf name v with ⟨id, env, -, -, henv, hstore⟩ | hstore
    · rw [hstore]
      unfold lookup?
      exact congrArg (fun read => s.frames.findSome? read)
        (funext fun f => lookupIn?_bindIn_of_ne henv hne f)
    · rw [hstore, lookup?_eq_of_frames (frames_writeLocal_bindOwned hf), lookup?_eq_of_frames hf]
      have hread : ∀ f : Frame, ((s.bindOwned frame name v).writeLocal name v).lookupIn? f other =
          s.lookupIn? f other := by
        intro f
        rw [lookupIn?_of_closures_eq (closures_writeLocal _ _ _), lookupIn?_bindOwned_of_ne _ hne]
      -- the current frame has one more local, under the stored name
      have hcurrent : ∀ t : State,
          t.lookupIn? { frame with locals := frame.locals.insert name v } other =
            t.lookupIn? frame other := by
        intro t
        unfold lookupIn? ownedEnvironment?
        dsimp only
        rw [Dict.get?_insert_of_ne _ _ (Ne.symm hne)]
      rw [hcurrent, hread frame]
      exact congrArg _ (congrArg (fun read => callers.findSome? read) (funext hread))

/-- The environment that the current frame owns binds local names only. -/
def OwnsLocals (s : State) (frame : Frame) : Prop :=
  ∀ env, s.ownedEnvironment? frame = some env → ∀ name ∈ env.bindings.keys, name ∈ frame.locals.keys

/-- A name that is stored in the closure chain is read from there. -/
theorem lookupIn?_bindIn_self (howns : s.OwnsLocals frame) (hlocal : name ∉ frame.locals.keys)
    (hholder : (s.envChain frame.closureEnv).find? (fun e => e.2.bindings.contains name) =
      some (id, env)) :
    (s.bindIn id env name v).lookupIn? frame name = some v := by
  have henv := get?_of_mem_envChainFrom (List.mem_of_find?_eq_some hholder)
  have hbound : env.bindings.contains name = true :=
    (List.find?_eq_some_iff_append.mp hholder).1
  -- the owned environment is another one, since the name is bound in this one and is not local
  have hother : frame.ownedEnv ≠ some id := by
    intro howned
    have hget : s.ownedEnvironment? frame = some env := by
      unfold ownedEnvironment?
      rw [howned]
      exact henv
    exact hlocal (howns env hget name (Dict.contains_iff.mp hbound))
  have hunowned : (s.ownedEnvironment? frame).bind (fun e => e.bindings.get? name) = none := by
    cases hget : s.ownedEnvironment? frame with
    | none => rfl
    | some owned =>
      exact Dict.get?_eq_none_iff.mpr fun hmem => hlocal (howns owned hget name hmem)
  unfold lookupIn?
  rw [ownedEnvironment?_bindIn, if_neg hother, hunowned, Dict.get?_eq_none_iff.mpr hlocal,
    envChain_bindIn henv]
  exact chainLookup?_map_rebind_self (fun e he => get?_of_mem_envChainFrom he) hholder

/-- A name that is made local is read from the owned environment or from the locals. -/
theorem lookupIn?_bindOwned_self (s : State) (frame : Frame) (name : String) (v : Value) :
    (s.bindOwned frame name v).lookupIn? { frame with locals := frame.locals.insert name v } name =
      some v := by
  unfold lookupIn?
  rcases bindOwned_cases s frame name v with ⟨hnone, hsame⟩ | ⟨id, env, hid, henv, hbound⟩
  · have hnone' : s.ownedEnvironment? { frame with locals := frame.locals.insert name v } = none :=
      hnone
    rw [hsame, hnone', Dict.get?_insert_self]
    rfl
  · rw [hbound, ownedEnvironment?_bindIn, if_pos hid, Option.bind_some, Dict.get?_insert_self]
    rfl

/-- **A stored variable is read back**, if the frame's own environment binds local names only. -/
theorem lookup?_store_self (hf : s.frames = frame :: callers) (howns : s.OwnsLocals frame)
    (name : String) (v : Value) : (s.store name v).lookup? name = some v := by
  rcases store_cases hf name v with ⟨id, env, hlocal, hholder, -, hstore⟩ | hstore
  · have hframes : (s.bindIn id env name v).frames = frame :: callers := hf
    rw [hstore, lookup?_eq_of_frames hframes, lookupIn?_bindIn_self howns hlocal hholder]
    rfl
  · rw [hstore, lookup?_eq_of_frames (frames_writeLocal_bindOwned hf),
      lookupIn?_of_closures_eq (closures_writeLocal _ _ _), lookupIn?_bindOwned_self]
    rfl

end State

end SymbolicVM
