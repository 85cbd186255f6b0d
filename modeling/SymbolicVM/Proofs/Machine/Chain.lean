import SymbolicVM.Proofs.Machine.Variables
import Mathlib.Logic.Relation
import Mathlib.Data.List.Nodup

/-!
# Chains of environments and their ends

An environment has at most one parent, so the way from an environment through the parents is a
chain. It ends in an environment without parent, or at a name that is not in the arena, or never, if
the arena is cyclic. `State.envChain` follows it for at most one step more than the arena has
environments; that is enough exactly if there is no cycle (`State.acyclic_iff_chains_complete`).

Of all that a delta does, only the environment that it creates sets a parent link
(`State.parent?_effect_of_some`). Where its name is new, a cycle arises exactly if the chain from
its parent ends at this very name (`State.acyclic_effect_iff`). So an arena in which all parents
exist can be extended without danger (`State.chainEnd_of_closed`).
-/

namespace SymbolicVM.State

open Relation

/-- The parent of an environment of the arena, if it has one. -/
def parent? (s : State) (id : String) : Option (Option String) :=
  (s.closures.get? id).map (·.parent)

/-- The environment `id` of the arena has the parent `up`. -/
def Parent (s : State) (id up : String) : Prop :=
  s.parent? id = some (some up)

/-- No way through the parents leads from an environment back to it. -/
def Acyclic (s : State) : Prop :=
  ∀ id, ¬ TransGen s.Parent id id

/-- Where a chain of environments from `start` goes on behind its last one. -/
def endOf (chain : List (String × Environment)) (start : Option String) : Option String :=
  match chain.getLast? with
  | some e => e.2.parent
  | none => start

/-- Where the chain from `start` ends: nowhere, or at the name of an environment that is not in the
arena. -/
def chainEnd (s : State) (start : Option String) : Option String :=
  endOf (s.envChain start) start

/-- The parents of all environments are in the arena. -/
def ParentsClosed (s : State) : Prop :=
  ∀ id up, s.Parent id up → up ∈ s.closures.keys

variable {s t : State} {id up : String} {start : Option String} {fuel : Nat}

theorem parent_iff : s.Parent id up ↔ ∃ env, s.closures.get? id = some env ∧ env.parent = some up :=
  Option.map_eq_some_iff

theorem parent?_eq_none_iff : s.parent? id = none ↔ id ∉ s.closures.keys := by
  unfold parent?
  rw [Option.map_eq_none_iff, Dict.get?_eq_none_iff]

theorem mem_keys_iff : id ∈ s.closures.keys ↔ s.parent? id ≠ none := by
  rw [Ne, parent?_eq_none_iff, not_not]

/-! ### One environment after the other -/

theorem envChainFrom_of_get? {env : Environment} (h : s.closures.get? id = some env) :
    envChainFrom s.closures (fuel + 1) (some id) =
      (id, env) :: envChainFrom s.closures fuel env.parent := by
  rw [envChainFrom, h]

theorem envChainFrom_of_notMem (h : id ∉ s.closures.keys) :
    envChainFrom s.closures fuel (some id) = [] := by
  cases fuel with
  | zero => rfl
  | succ fuel => rw [envChainFrom, Dict.get?_eq_none_iff.mpr h]

theorem endOf_cons (e : String × Environment) (chain : List (String × Environment))
    (start : Option String) : endOf (e :: chain) start = endOf chain e.2.parent := by
  unfold endOf
  rw [List.getLast?_cons]
  cases chain.getLast? with
  | none => rfl
  | some last => rfl

/-- Every environment of a chain is on the way from its start. -/
theorem reaches_of_mem_envChainFrom {e : String × Environment}
    (h : e ∈ envChainFrom s.closures fuel start) :
    ∃ first, start = some first ∧ ReflTransGen s.Parent first e.1 := by
  induction fuel generalizing start with
  | zero => simp [envChainFrom] at h
  | succ fuel ih =>
    cases start with
    | none => simp [envChainFrom] at h
    | some id =>
      cases hget : s.closures.get? id with
      | none => simp [envChainFrom, hget] at h
      | some env =>
        rw [envChainFrom_of_get? hget] at h
        rcases List.mem_cons.mp h with rfl | h
        · exact ⟨id, rfl, .refl⟩
        · obtain ⟨up, hup, hreaches⟩ := ih h
          exact ⟨id, rfl, hreaches.head (parent_iff.mpr ⟨env, hget, hup⟩)⟩

/-- So is the name at which it ends. -/
theorem reaches_of_endOf (h : endOf (envChainFrom s.closures fuel start) start = some id) :
    ∃ first, start = some first ∧ ReflTransGen s.Parent first id := by
  induction fuel generalizing start with
  | zero => exact ⟨id, h, .refl⟩
  | succ fuel ih =>
    cases start with
    | none => simp [envChainFrom, endOf] at h
    | some first =>
      cases hget : s.closures.get? first with
      | none =>
        have hend : some first = some id := by simpa [envChainFrom, hget, endOf] using h
        exact ⟨id, hend, .refl⟩
      | some env =>
        rw [envChainFrom_of_get? hget, endOf_cons] at h
        obtain ⟨up, hup, hreaches⟩ := ih h
        exact ⟨first, rfl, hreaches.head (parent_iff.mpr ⟨env, hget, hup⟩)⟩

/-! ### Complete chains -/

/-- A chain that has not used up its fuel is complete: it is the same with more. -/
theorem envChainFrom_of_length_lt (h : (envChainFrom s.closures fuel start).length < fuel)
    (extra : Nat) :
    envChainFrom s.closures (fuel + extra) start = envChainFrom s.closures fuel start := by
  induction fuel generalizing start with
  | zero => simp at h
  | succ fuel ih =>
    rw [Nat.add_right_comm]
    cases start with
    | none => rfl
    | some id =>
      cases hget : s.closures.get? id with
      | none => simp [envChainFrom, hget]
      | some env =>
        rw [envChainFrom_of_get? hget, List.length_cons] at h
        rw [envChainFrom_of_get? hget, envChainFrom_of_get? hget, ih (by omega)]

/-- A complete chain that passes a name which is not in the arena ends there. -/
theorem endOf_of_reaches {first : String}
    (h : (envChainFrom s.closures fuel (some first)).length < fuel)
    (hreaches : ReflTransGen s.Parent first id) (hid : id ∉ s.closures.keys) :
    endOf (envChainFrom s.closures fuel (some first)) (some first) = some id := by
  induction hreaches using ReflTransGen.head_induction_on generalizing fuel with
  | refl =>
    rw [envChainFrom_of_notMem hid]
    rfl
  | head hparent _ ih =>
    obtain ⟨env, hget, hup⟩ := parent_iff.mp hparent
    cases fuel with
    | zero => simp at h
    | succ fuel =>
      rw [envChainFrom_of_get? hget, hup, List.length_cons] at h
      rw [envChainFrom_of_get? hget, endOf_cons, hup]
      exact ih (by omega)

/-- Without cycles no environment comes twice in a chain. -/
theorem Acyclic.nodup_envChainFrom (h : s.Acyclic) (fuel : Nat) (start : Option String) :
    ((envChainFrom s.closures fuel start).map Prod.fst).Nodup := by
  induction fuel generalizing start with
  | zero => exact List.nodup_nil
  | succ fuel ih =>
    cases start with
    | none => exact List.nodup_nil
    | some id =>
      cases hget : s.closures.get? id with
      | none => simp [envChainFrom, hget]
      | some env =>
        rw [envChainFrom_of_get? hget, List.map_cons, List.nodup_cons]
        refine ⟨fun hmem => ?_, ih env.parent⟩
        obtain ⟨e, he, heq⟩ := List.mem_map.mp hmem
        obtain ⟨up, hup, hreaches⟩ := reaches_of_mem_envChainFrom he
        rw [heq] at hreaches
        exact h id (.head' (parent_iff.mpr ⟨env, hget, hup⟩) hreaches)

theorem map_fst_envChainFrom_subset (fuel : Nat) (start : Option String) :
    (envChainFrom s.closures fuel start).map Prod.fst ⊆ s.closures.keys := by
  intro id hid
  obtain ⟨e, he, rfl⟩ := List.mem_map.mp hid
  exact Dict.mem_keys_of_get? (get?_of_mem_envChainFrom he)

/-- So a chain has at most as many environments as the arena. -/
theorem Acyclic.length_envChainFrom_le (h : s.Acyclic) (fuel : Nat) (start : Option String) :
    (envChainFrom s.closures fuel start).length ≤ s.closures.size := by
  have hle := (h.nodup_envChainFrom fuel start).length_le_of_subset
    (map_fst_envChainFrom_subset fuel start)
  rwa [List.length_map, Dict.length_keys] at hle

/-- On a cycle the next environment is on a cycle as well, so a chain never ends. -/
theorem length_envChainFrom_of_cycle (h : TransGen s.Parent id id) (fuel : Nat) :
    (envChainFrom s.closures fuel (some id)).length = fuel := by
  induction fuel generalizing id with
  | zero => rfl
  | succ fuel ih =>
    obtain ⟨up, hparent, hback⟩ := TransGen.head'_iff.mp h
    have hcycle : TransGen s.Parent up up := .tail' hback hparent
    obtain ⟨env, hget, hup⟩ := parent_iff.mp hparent
    rw [envChainFrom_of_get? hget, List.length_cons, hup, ih hcycle]

/-- The bound on the length of chains cuts none of them short. -/
def ChainsComplete (s : State) : Prop :=
  ∀ start extra, envChainFrom s.closures (s.closures.size + 1 + extra) start = s.envChain start

/-- **The bound on the length of chains is harmless exactly if the arena is acyclic.** -/
theorem acyclic_iff_chains_complete : s.Acyclic ↔ s.ChainsComplete := by
  constructor
  · intro h start extra
    have hle := h.length_envChainFrom_le (s.closures.size + 1) start
    exact envChainFrom_of_length_lt (by omega) extra
  · intro h id hcycle
    have hlong := length_envChainFrom_of_cycle hcycle (s.closures.size + 1 + 1)
    have hcut := length_envChainFrom_of_cycle hcycle (s.closures.size + 1)
    have hsame := congrArg List.length (h (some id) 1)
    unfold envChain at hsame
    omega

/-! ### Where a chain ends -/

/-- **Where a chain ends** in an acyclic arena. -/
theorem Acyclic.chainEnd_eq_iff (h : s.Acyclic) (hid : id ∉ s.closures.keys) :
    s.chainEnd start = some id ↔
      ∃ first, start = some first ∧ ReflTransGen s.Parent first id := by
  constructor
  · exact reaches_of_endOf
  · rintro ⟨first, rfl, hreaches⟩
    have hle := h.length_envChainFrom_le (s.closures.size + 1) (some first)
    exact endOf_of_reaches (by omega) hreaches hid

/-- In an arena that has all parents of its environments, a chain from one of them ends at no name
outside. -/
theorem chainEnd_of_closed (h : s.ParentsClosed) (hstart : ∀ id, start = some id →
    id ∈ s.closures.keys) (hid : id ∉ s.closures.keys) : s.chainEnd start ≠ some id := by
  intro hend
  obtain ⟨first, hfirst, hreaches⟩ := reaches_of_endOf hend
  rcases ReflTransGen.cases_tail hreaches with rfl | ⟨last, -, hparent⟩
  · exact hid (hstart _ hfirst)
  · exact hid (h last id hparent)

/-! ### A new environment -/

theorem parent_of_parent?_eq (h : t.parent? = s.parent?) : t.Parent = s.Parent := by
  unfold Parent
  rw [h]

theorem acyclic_of_parent?_eq (h : t.parent? = s.parent?) : t.Acyclic ↔ s.Acyclic := by
  unfold Acyclic
  rw [parent_of_parent?_eq h]

theorem parentsClosed_of_parent?_eq (h : t.parent? = s.parent?) :
    t.ParentsClosed ↔ s.ParentsClosed := by
  unfold ParentsClosed
  simp only [mem_keys_iff, parent_of_parent?_eq h, h]

section NewLink

variable {c : NewClosure}

/-- The links after an environment came into being that was not in the arena. -/
theorem parent_insert_iff
    (hlink : ∀ id, t.parent? id = if c.id = id then some c.parent else s.parent? id)
    (hnew : c.id ∉ s.closures.keys) (id up : String) :
    t.Parent id up ↔ (id = c.id ∧ c.parent = some up) ∨ s.Parent id up := by
  unfold Parent
  rw [hlink]
  by_cases hid : c.id = id
  · rw [if_pos hid, ← hid, parent?_eq_none_iff.mpr hnew]
    simp
  · rw [if_neg hid]
    simp [Ne.symm hid]

/-- A way that leads to the new environment comes to it by old links: from there on it would only
lead there again. -/
theorem reaches_insert
    (hlinks : ∀ id up, t.Parent id up ↔ (id = c.id ∧ c.parent = some up) ∨ s.Parent id up)
    (h : ReflTransGen t.Parent id c.id) : ReflTransGen s.Parent id c.id := by
  induction h using ReflTransGen.head_induction_on with
  | refl => exact .refl
  | head hparent _ ih =>
    rcases (hlinks _ _).mp hparent with ⟨rfl, -⟩ | hold
    · exact .refl
    · exact ih.head hold

/-- A way through the new arena uses old links only or passes the new environment. -/
theorem transGen_insert
    (hlinks : ∀ id up, t.Parent id up ↔ (id = c.id ∧ c.parent = some up) ∨ s.Parent id up)
    (h : TransGen t.Parent id up) :
    TransGen s.Parent id up ∨
      (ReflTransGen t.Parent id c.id ∧ ReflTransGen t.Parent c.id up) := by
  induction h using TransGen.head_induction_on with
  | single hparent =>
    rcases (hlinks _ _).mp hparent with ⟨rfl, -⟩ | hold
    · exact .inr ⟨.refl, .single hparent⟩
    · exact .inl (.single hold)
  | head hparent hrest ih =>
    rcases (hlinks _ _).mp hparent with ⟨rfl, -⟩ | hold
    · exact .inr ⟨.refl, (hrest.head hparent).to_reflTransGen⟩
    · rcases ih with hpath | ⟨hto, hfrom⟩
      · exact .inl (hpath.head hold)
      · exact .inr ⟨hto.head hparent, hfrom⟩

/-- **When a new environment closes a cycle.** -/
theorem Acyclic.insert_iff (hs : s.Acyclic)
    (hlinks : ∀ id up, t.Parent id up ↔ (id = c.id ∧ c.parent = some up) ∨ s.Parent id up) :
    t.Acyclic ↔ ¬ ∃ first, c.parent = some first ∧ ReflTransGen s.Parent first c.id := by
  have hmono : s.Parent ≤ t.Parent := fun id up h => (hlinks id up).mpr (.inr h)
  constructor
  · rintro ht ⟨first, hfirst, hreaches⟩
    have hlink : t.Parent c.id first := (hlinks _ _).mpr (.inl ⟨rfl, hfirst⟩)
    exact ht c.id (.head' hlink (ReflTransGen.mono hmono _ _ hreaches))
  · intro hclear id hcycle
    rcases transGen_insert hlinks hcycle with hold | ⟨hto, hfrom⟩
    · exact hs id hold
    · -- the cycle passes the new environment, so it starts with the new link when seen from there
      have hround : TransGen t.Parent c.id c.id :=
        TransGen.trans_left (TransGen.trans_right hfrom hcycle) hto
      obtain ⟨first, hparent, hback⟩ := TransGen.head'_iff.mp hround
      have hreaches : ReflTransGen s.Parent first c.id := reaches_insert hlinks hback
      rcases (hlinks _ _).mp hparent with ⟨-, hfirst⟩ | hold
      · exact hclear ⟨first, hfirst, hreaches⟩
      · exact hs c.id (.head' hold hreaches)

/-- A new environment whose parent is in the arena keeps the parents in the arena. -/
theorem ParentsClosed.insert (h : s.ParentsClosed)
    (hlink : ∀ id, t.parent? id = if c.id = id then some c.parent else s.parent? id)
    (hnew : c.id ∉ s.closures.keys) (hparent : ∀ up ∈ c.parent, up ∈ s.closures.keys) :
    t.ParentsClosed := by
  have hkept : ∀ id ∈ s.closures.keys, id ∈ t.closures.keys := by
    intro id hid
    rw [mem_keys_iff, hlink]
    split_ifs
    · simp
    · exact mem_keys_iff.mp hid
  intro id up hup
  rcases (parent_insert_iff hlink hnew id up).mp hup with ⟨-, hc⟩ | hold
  · exact hkept up (hparent up hc)
  · exact hkept up (h id up hold)

end NewLink

/-! ### The parent links that a delta sets -/

theorem parent?_of_closures_eq (h : t.closures = s.closures) : t.parent? = s.parent? := by
  unfold parent?
  rw [h]

theorem parent?_bindIn {env : Environment} (henv : s.closures.get? id = some env) (name : String)
    (v : Value) : (s.bindIn id env name v).parent? = s.parent? := by
  funext other
  unfold parent? bindIn
  rw [Dict.get?_insert]
  split_ifs with hid
  · rw [← hid, henv]
    rfl
  · rfl

theorem parent?_store (s : State) (name : String) (v : Value) :
    (s.store name v).parent? = s.parent? := by
  cases hf : s.frames with
  | nil =>
    unfold store current?
    rw [hf]
    rfl
  | cons frame callers =>
    rcases store_cases hf name v with ⟨id, env, -, -, henv, hstore⟩ | hstore
    · rw [hstore, parent?_bindIn henv]
    · rw [hstore, parent?_of_closures_eq (closures_writeLocal _ _ _)]
      rcases bindOwned_cases s frame name v with ⟨-, hsame⟩ | ⟨id, env, -, henv, hbound⟩
      · rw [hsame]
      · rw [hbound, parent?_bindIn henv]

theorem parent?_record (s : State) (d : Delta) : (s.record d).parent? = s.parent? := by
  have hregisters :
      (d.registerWrites.entries.foldl (fun s e => s.writeRegister e.1 e.2) s).parent? = s.parent? :=
    foldl_untouched parent? (fun u _ => parent?_of_closures_eq (closures_modifyCurrent u _)) _ s
  have hfields : ∀ u : State, (d.heapWrites.foldl writeField u).parent? = u.parent? := by
    apply foldl_untouched parent?
    intro u w
    rfl
  unfold record
  cases d.pathCondition with
  | none => exact (hfields _).trans hregisters
  | some cond => exact (hfields _).trans hregisters

theorem closures_popFrame (s : State) : s.popFrame.1.closures = s.closures := by
  unfold popFrame
  split
  · rfl
  · rfl

theorem parent?_moveStack (s : State) (d : Delta) : (s.moveStack d).1.parent? = s.parent? := by
  have hpush : (d.callPush.elim s s.pushFrame).parent? = s.parent? := by
    cases d.callPush with
    | none => rfl
    | some p => rfl
  have hvars : ((d.callPush.elim s s.pushFrame).writeVars d.callPush.isSome
      d.varWrites).parent? = s.parent? := by
    refine Eq.trans ?_ hpush
    refine foldl_untouched parent? (fun u e => ?_) _ _
    dsimp only
    split_ifs
    · exact parent?_of_closures_eq (closures_modifyCurrent u _)
    · exact parent?_store u e.1 e.2
  unfold moveStack
  dsimp only
  split_ifs
  · exact (parent?_of_closures_eq (closures_popFrame _)).trans hvars
  · exact hvars

variable {d : Delta}

theorem parent?_effect (s : State) (d : Delta) :
    (s.effect d).1.parent? = (s.install d).parent? :=
  (parent?_moveStack _ d).trans (parent?_record _ d)

theorem parent?_effect_of_none (h : d.newClosure = none) :
    (s.effect d).1.parent? = s.parent? := by
  rw [parent?_effect]
  unfold install
  rw [h]
  exact parent?_of_closures_eq (closures_foldl_installObject s d.newObjects)

/-- The environment that a delta creates has the parent that it is given, and every other one has
the parent that it had. -/
theorem parent?_effect_of_some {c : NewClosure} (h : d.newClosure = some c) (id : String) :
    (s.effect d).1.parent? id = if c.id = id then some c.parent else s.parent? id := by
  have hclosures : (s.install d).closures = s.closures.insert c.id ⟨c.bindings, c.parent⟩ := by
    unfold install
    rw [h, ← closures_foldl_installObject s d.newObjects]
    exact closures_modifyCurrent _ _
  rw [parent?_effect]
  unfold parent?
  rw [hclosures, Dict.get?_insert]
  split_ifs
  · rfl
  · rfl

/-- **A delta closes a cycle exactly if the chain from the parent of its environment ends at the
name of this environment.** -/
theorem acyclic_effect_iff (hs : s.Acyclic) {c : NewClosure} (h : d.newClosure = some c)
    (hnew : c.id ∉ s.closures.keys) :
    (s.effect d).1.Acyclic ↔ s.chainEnd c.parent ≠ some c.id := by
  rw [hs.insert_iff (parent_insert_iff (parent?_effect_of_some h) hnew), Ne,
    hs.chainEnd_eq_iff hnew]

end SymbolicVM.State
