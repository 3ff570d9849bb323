import MeshSupervisor.Ownership

/-! # Histories of supervisor lifetimes

`boot` is the start-up of the supervisor: open the store, read the node's key, load, build
the manager.  `lifetimes` extends the transitions of one lifetime by crashes: all tasks and
children are lost, the store file stays, and a new lifetime boots from it.

The counter a new lifetime continues from is recomputed from the counter on disk and the
records still there (`Store.Covers`).  A `put` sets the counter on disk to its own handle,
which may be lower, and a `remove` may take away the highest record.  `handles_distinct`:
along every history in which no store write lowers what `load` recomputes (`StoreClear`),
no handle is returned twice; `handle_reused` is a history in which one is. -/

namespace MeshSupervisor

open Wire (Codec)

/-! ### Start-up and crashes -/

section
variable [Codec Record]

/-- Start-up from the store file; `generated` is the key a first run generates. -/
def boot (file : Option Store) (generated : SecretKey) (cg : Option Cgroups) :
    Except String (Manager × SecretKey) :=
  match (Store.openFile file).secretKey generated with
  | .error e => .error e
  | .ok (key, st) =>
      match st.load with
      | .error e => .error e
      | .ok loaded => .ok (.withStore st loaded cg, key)

/-- A transition of a lifetime, or the crash that ends it and the next start-up. -/
inductive LifeAct (α : Type) where
  | act (a : α)
  | restart (generated : SecretKey) (cg : Option Cgroups)

/-- Lifetimes that follow each other on one store. -/
def lifetimes {α : Type} (step : World → α → Option (World × List Event)) (w : World) :
    LifeAct α → Option (World × List Event)
  | .act a => step w a
  | .restart generated cg =>
      match w.mgr.store with
      | none => none
      | some st =>
          match boot (some st) generated cg with
          | .error _ => none
          | .ok (m, _) => some (World.start m, [])

theorem boot_ok {file : Option Store} {generated key : SecretKey} {cg : Option Cgroups}
    {m : Manager} (h : boot file generated cg = .ok (m, key)) :
    ∃ st loaded, (Store.openFile file).secretKey generated = .ok (key, st) ∧
      st.load = .ok loaded ∧ m = .withStore st loaded cg := by
  unfold boot at h
  cases hk : (Store.openFile file).secretKey generated with
  | error e => rw [hk] at h; cases h
  | ok p =>
      obtain ⟨key', st⟩ := p
      rw [hk] at h
      dsimp only at h
      cases hl : st.load with
      | error e => rw [hl] at h; cases h
      | ok loaded =>
          rw [hl] at h
          obtain ⟨rfl, rfl⟩ := Prod.mk.inj (Except.ok.inj h)
          exact ⟨st, loaded, rfl, hl, rfl⟩

theorem boot_initial {file : Option Store} {generated key : SecretKey} {cg : Option Cgroups}
    {m : Manager} (h : boot file generated cg = .ok (m, key)) : Initial (World.start m) := by
  obtain ⟨st, loaded, -, hl, rfl⟩ := boot_ok h
  exact .inr ⟨st, loaded, cg, hl, rfl⟩

theorem lifetimes_cases {α : Type} {step : World → α → Option (World × List Event)} {w w' : World}
    {a : LifeAct α} {evs : List Event} (h : lifetimes step w a = some (w', evs)) :
    (∃ b, a = .act b ∧ step w b = some (w', evs)) ∨
    ∃ generated cg st m key, a = .restart generated cg ∧ w.mgr.store = some st ∧
      boot (some st) generated cg = .ok (m, key) ∧ w' = World.start m ∧ evs = [] := by
  cases a with
  | act b => exact .inl ⟨b, rfl, h⟩
  | restart generated cg =>
      simp only [lifetimes] at h
      cases hst : w.mgr.store with
      | none => rw [hst] at h; cases h
      | some st =>
          rw [hst] at h
          dsimp only at h
          cases hb : boot (some st) generated cg with
          | error e => rw [hb] at h; cases h
          | ok p =>
              obtain ⟨m, key⟩ := p
              rw [hb] at h
              obtain ⟨rfl, rfl⟩ := Prod.mk.inj (Option.some.inj h)
              exact .inr ⟨generated, cg, st, m, key, rfl, rfl, hb, rfl, rfl⟩

end

/-! ### What `load` will recompute -/

/-- After a restart the counter will be at least `h`. -/
def Store.Covers (st : Store) (h : Handle) : Prop :=
  h ≤ st.nextHandle.getD 0 ∨ ∃ k ∈ st.records, h ≤ k

/-- Writing the record of `id` does not lower the recomputed counter. -/
def Store.PutClear (st : Store) (id : Handle) : Prop :=
  st.nextHandle.getD 0 ≤ id ∨ ∃ k ∈ st.records, st.nextHandle.getD 0 ≤ k

/-- Removing the record of `id` does not lower the recomputed counter. -/
def Store.RemoveClear (st : Store) (id : Handle) : Prop :=
  id ∈ st.records → id ≤ st.nextHandle.getD 0 ∨ ∃ k ∈ st.records, k ≠ id ∧ id ≤ k

namespace Store.Covers

variable [Codec Record] {st st' : Store} {h id : Handle}

theorem put (hc : st.Covers h) (hp : st.PutClear id) (r : Record) : (st.put id r).Covers h := by
  rcases hc with hc | ⟨k, hk, hle⟩
  · rcases hp with hp | ⟨k, hk, hp⟩
    · exact .inl (le_trans hc hp)
    · exact .inr ⟨k, Store.mem_put.mpr (.inr hk), le_trans hc hp⟩
  · exact .inr ⟨k, Store.mem_put.mpr (.inr hk), hle⟩

theorem put_self (st : Store) (id : Handle) (r : Record) : (st.put id r).Covers id :=
  .inl (le_refl id)

omit [Codec Record] in
theorem remove (hc : st.Covers h) (hr : st.RemoveClear id) : (st.remove id).Covers h := by
  rcases hc with hc | ⟨k, hk, hle⟩
  · exact .inl hc
  · by_cases hki : k = id
    · subst hki
      rcases hr hk with hr | ⟨k', hk', hne, hr⟩
      · exact .inl (le_trans hle hr)
      · exact .inr ⟨k', Store.mem_remove.mpr ⟨hne, hk'⟩, le_trans hle hr⟩
    · exact .inr ⟨k, Store.mem_remove.mpr ⟨hki, hk⟩, hle⟩

theorem setStatus (hc : st.Covers h) {s : ProcState} (hs : st.setStatus id s = .ok st') :
    st'.Covers h := by
  obtain ⟨hkeys, hnext, -⟩ := Store.setStatus_frame hs
  rcases hc with hc | ⟨k, hk, hle⟩
  · exact .inl (by rw [hnext]; exact hc)
  · exact .inr ⟨k, (hkeys k).mpr hk, hle⟩

omit [Codec Record] in
theorem secretKey (hc : st.Covers h) {generated key : SecretKey}
    (hk : st.secretKey generated = .ok (key, st')) : st'.Covers h := by
  unfold Store.secretKey at hk
  split at hk
  · split_ifs at hk
    obtain ⟨-, rfl⟩ := Prod.mk.inj (Except.ok.inj hk)
    exact hc
  · obtain ⟨-, rfl⟩ := Prod.mk.inj (Except.ok.inj hk)
    exact hc

theorem load (hc : st.Covers h) {loaded : Loaded} (hl : st.load = .ok loaded) :
    h ≤ loaded.nextHandle := by
  have hspec := Store.load_ok hl
  rcases hc with hc | ⟨k, hk, hle⟩
  · exact le_trans hc hspec.stored_le
  · exact le_trans hle (hspec.key_le k hk)

end Store.Covers

/-! ### The handles that were returned -/

/-- The handle a `spawn` call returned. -/
def Event.returned : Event → Option Handle
  | .spawned id _ => some id
  | _ => none

/-- The handles returned by the successful `spawn` calls of a history, in order. -/
def returned {α : Type} (l : List (Lts.Tr World α Event)) : List Handle :=
  (Lts.events l).filterMap Event.returned

/-- The handle of a `spawn` call that has not returned yet. -/
def Task.spawning : Task → Option Handle
  | .spawnLaunch id _ | .spawnInsert id _ _ | .spawnSave id _ _ | .spawnReturn id _ _ => some id
  | _ => none

/-- The handle whose record the task is about to `put`. -/
def Task.puts : Task → Option Handle
  | .spawnSave id _ _ => some id
  | .supervise s =>
      match s.pc with
      | .saveLaunch _ => some s.id
      | _ => none
  | _ => none

/-- The store write of the transition, if it makes one, does not lower the counter a restart
recomputes. -/
def StoreClear (tr : Lts.Tr World (LifeAct Action) Event) : Prop :=
  ∀ t os task st, tr.act = .act (.sched t os) → tr.pre.tasks t = some task →
    tr.pre.mgr.store = some st →
    (∀ id, task.puts = some id → st.PutClear id) ∧
    ∀ id, task = .forgetStore id → st.RemoveClear id

/-- The handles returned so far are distinct, not above the counter, covered by the store,
and none of them is being spawned. -/
structure Fresh (R : List Handle) (w : World) : Prop where
  inv : Inv w
  nodup : R.Nodup
  le : ∀ h ∈ R, h ≤ w.mgr.next
  covered : ∀ h ∈ R, ∀ st, w.mgr.store = some st → st.Covers h
  spawning : ∀ t task id, w.tasks t = some task → task.spawning = some id → id ∉ R
  saved : ∀ t id spec l, w.tasks t = some (.spawnReturn id spec l) →
    ∀ st, w.mgr.store = some st → st.Covers id

theorem Task.spawning_owner {task : Task} {id : Handle} (h : task.spawning = some id) :
    ∃ spec, task.owner = some (id, spec) := by
  cases task <;> first | cases h; done | (cases h; exact ⟨_, rfl⟩)

namespace Moves

variable [Codec Record] {m m' : Manager} {os : Os} {task : Task} {next : Option Task}
  {evs : List Event}

theorem returned (hm : Moves m os task m' next evs) : evs.filterMap Event.returned = [] ∨
    ∃ id spec l, task = .spawnReturn id spec l ∧ evs.filterMap Event.returned = [id] ∧
      m' = m ∧ ∀ task', next = some task' → task'.spawning = none := by
  cases hm with
  | spawnReturn id spec l =>
      refine .inr ⟨id, spec, l, rfl, rfl, rfl, ?_⟩
      intro task' hn
      obtain rfl := Option.some.inj hn
      rfl
  | wait s code hpc hx => left; split_ifs <;> rfl
  | terminateForce id pid => left; split_ifs <;> rfl
  | killAllTerm pids | killAllForce pids => left; simp [Event.returned]
  | _ => exact .inl rfl

theorem spawning_next (hm : Moves m os task m' next evs) {task' : Task} {id : Handle}
    (hn : next = some task') (h : task'.spawning = some id) :
    task.spawning = some id ∨ id = m.next + 1 := by
  cases hm with
  | spawn spec =>
      obtain rfl := Option.some.inj hn
      exact .inr (Option.some.inj h).symm
  | _ => cases hn <;> first | exact .inl h | cases h

theorem spawnReturn_next (hm : Moves m os task m' next evs) {id : Handle} {spec : Spec}
    {l : Launched} (hn : next = some (.spawnReturn id spec l)) :
    task = .spawnSave id spec l ∧ m' = m.persist id spec l.pid .running := by
  cases hm with
  | spawnSave _ _ _ =>
      obtain ⟨rfl, rfl, rfl⟩ := Task.spawnReturn.inj (Option.some.inj hn)
      exact ⟨rfl, rfl⟩
  | _ => cases hn

end Moves

section
variable [Codec Record] {w w' : World} {a : Action} {evs : List Event} {R : List Handle}

theorem covers_step (hs : step w a = some (w', evs))
    (hclear : StoreClear ⟨w, .act a, evs, w'⟩) {h : Handle}
    (hc : ∀ st, w.mgr.store = some st → st.Covers h) :
    ∀ st, w'.mgr.store = some st → st.Covers h := by
  intro st' hst'
  rcases step_acts hs with ⟨t, os, task, next, rfl, ht, hm⟩ | ⟨-, -, hx, -⟩
  · rcases hm.store_eq with hx | ⟨id, spec, pid, hx, hwho⟩ | ⟨s, code, -, -, hx⟩ | ⟨id, rfl, hx⟩
    · exact hc st' (hx.symm.trans hst')
    · rw [hx] at hst'
      obtain ⟨st, hst, rfl⟩ := Option.map_eq_some_iff.mp hst'
      refine (hc st hst).put ?_ _
      refine (hclear t os task st rfl ht hst).1 id ?_
      rcases hwho with ⟨l, rfl, -⟩ | ⟨s, l, rfl, hpc, rfl, -⟩
      · rfl
      · simp only [Task.puts, hpc]
    · rw [hx, Manager.saveExit] at hst'
      obtain ⟨st, hst, rfl⟩ := Option.map_eq_some_iff.mp hst'
      cases hset : st.setStatus s.id (.exited code) with
      | error e => exact hc st hst
      | ok st'' => exact (hc st hst).setStatus hset
    · rw [hx] at hst'
      obtain ⟨st, hst, rfl⟩ := Option.map_eq_some_iff.mp hst'
      exact (hc st hst).remove ((hclear t os _ st rfl ht hst).2 id rfl)
  · exact hc st' (hx.symm.trans hst')

/-- A step returns no handle, or `spawn` returns one that no task is spawning any more. -/
theorem step_returned (hI : Inv w) (hs : step w a = some (w', evs)) :
    evs.filterMap Event.returned = [] ∨
      ∃ t id spec l, w.tasks t = some (.spawnReturn id spec l) ∧
        evs.filterMap Event.returned = [id] ∧ w'.mgr = w.mgr ∧
        ∀ t' task', w'.tasks t' = some task' → task'.spawning ≠ some id := by
  rcases step_moves hs with ⟨_, _, -, -, rfl, -⟩ | ⟨t, os, task, m', next, -, ht, hm, rfl⟩ |
    ⟨_, _, _, -, -, -, rfl, -⟩
  · exact .inl rfl
  · rcases hm.returned with hnil | ⟨id, spec, l, rfl, hret, hmgr, hnone⟩
    · exact .inl hnil
    · refine .inr ⟨t, id, spec, l, ht, hret, hmgr, ?_⟩
      intro t' task' ht' hsp
      rcases tasks_update ht' with ⟨-, hn⟩ | ⟨hne, ht'⟩
      · rw [hnone task' hn] at hsp
        cases hsp
      · -- two tasks would work on the handle
        obtain ⟨spec', ho'⟩ := Task.spawning_owner hsp
        exact hne (hI.unique _ _ _ _ id _ _ ht' ht ho' rfl)
  · exact .inl rfl

/-- Within a lifetime. -/
theorem Fresh.keep (hF : Fresh R w) (hs : step w a = some (w', evs))
    (hclear : StoreClear ⟨w, .act a, evs, w'⟩) : Fresh (R ++ evs.filterMap Event.returned) w' := by
  have hI' := inv_step hs hF.inv
  have hle : ∀ h ∈ R, h ≤ w'.mgr.next := fun h hh => le_trans (hF.le h hh) (step_next_le hs)
  have hcov : ∀ h ∈ R, ∀ st, w'.mgr.store = some st → st.Covers h := fun h hh =>
    covers_step hs hclear (hF.covered h hh)
  have hspawn : ∀ t task id, w'.tasks t = some task → task.spawning = some id → id ∉ R := by
    intro t task' id ht' hsp hmem
    rcases task_origin hs ht' with ht | ⟨op, rfl⟩ | ⟨os, task, -, ht, hm, -⟩
    · exact hF.spawning t task' id ht hsp hmem
    · cases op <;> cases hsp
    · rcases hm.spawning_next rfl hsp with hsp' | rfl
      · exact hF.spawning t task id ht hsp' hmem
      · have := hF.le _ hmem
        lia
  have hsaved : ∀ t id spec l, w'.tasks t = some (.spawnReturn id spec l) →
      ∀ st, w'.mgr.store = some st → st.Covers id := by
    intro t id spec l ht'
    rcases task_origin hs ht' with ht | ⟨op, hop⟩ | ⟨os, task, -, ht, hm, -⟩
    · exact covers_step hs hclear (hF.saved t id spec l ht)
    · cases op <;> cases hop
    · obtain ⟨-, hmgr⟩ := hm.spawnReturn_next rfl
      intro st hst
      rw [hmgr] at hst
      obtain ⟨st₀, -, rfl⟩ := Option.map_eq_some_iff.mp hst
      exact .put_self _ _ _
  rcases step_returned hF.inv hs with hnil | ⟨t, id, spec, l, ht, hret, hmgr, hnone⟩
  · rw [hnil, List.append_nil]
    exact ⟨hI', hF.nodup, hle, hcov, hspawn, hsaved⟩
  · have hnot : id ∉ R := hF.spawning t _ id ht rfl
    rw [hret]
    refine ⟨hI', hF.nodup.append (List.nodup_singleton id) (List.disjoint_singleton.mpr hnot),
      ?_, ?_, ?_, hsaved⟩
    · intro h hh
      rcases List.mem_append.mp hh with hh | hh
      · exact hle h hh
      · obtain rfl := List.mem_singleton.mp hh
        exact le_trans (hF.inv.owner_le t _ h spec ht rfl) (step_next_le hs)
    · intro h hh
      rcases List.mem_append.mp hh with hh | hh
      · exact hcov h hh
      · obtain rfl := List.mem_singleton.mp hh
        rw [hmgr]
        exact hF.saved t h spec l ht
    · intro t' task' id' ht' hsp hmem
      rcases List.mem_append.mp hmem with hmem | hmem
      · exact hspawn t' task' id' ht' hsp hmem
      · obtain rfl := List.mem_singleton.mp hmem
        exact hnone t' task' ht' hsp

/-- Across a restart. -/
theorem Fresh.restart (hF : Fresh R w) {st : Store} (hst : w.mgr.store = some st)
    {generated key : SecretKey} {cg : Option Cgroups} {m : Manager}
    (hb : boot (some st) generated cg = .ok (m, key)) : Fresh R (World.start m) := by
  have hinit := boot_initial hb
  obtain ⟨st', loaded, hk, hl, rfl⟩ := boot_ok hb
  have hcov : ∀ h ∈ R, st'.Covers h := fun h hh => (hF.covered h hh st hst).secretKey hk
  refine ⟨inv_initial hinit, hF.nodup, ?_, ?_, ?_, ?_⟩
  · intro h hh
    exact (hcov h hh).load hl
  · intro h hh st'' hst''
    obtain rfl := Option.some.inj hst''
    exact hcov h hh
  · intro t task id ht; cases ht
  · intro t id spec l ht; cases ht

/-- **Handles are not reused, as long as no store write lowers the counter that a restart
recomputes.** -/
theorem handles_distinct {file : Option Store} {generated key : SecretKey} {cg : Option Cgroups}
    {m : Manager} (h₀ : boot file generated cg = .ok (m, key))
    {l : List (Lts.Tr World (LifeAct Action) Event)}
    (hr : Lts.Run (lifetimes step) (World.start m) l w) (hclear : ∀ tr ∈ l, StoreClear tr) :
    (returned l).Nodup := by
  have key : Fresh (returned l) w := by
    induction hr with
    | nil =>
        refine ⟨inv_initial (boot_initial h₀), List.nodup_nil, by simp [returned],
          by simp [returned], ?_, ?_⟩
        · intro t task id ht; cases ht
        · intro t id spec l ht; cases ht
    | @snoc l w₁ w₂ a evs hr hs ih =>
        have hF := ih (fun tr htr => hclear tr (List.mem_append_left _ htr))
        have hlast := hclear ⟨w₁, a, evs, w₂⟩ (by simp)
        have hret : returned (l ++ [⟨w₁, a, evs, w₂⟩]) = returned l ++ evs.filterMap Event.returned := by
          simp [returned]
        rw [hret]
        rcases lifetimes_cases hs with ⟨b, rfl, hb⟩ | ⟨_, _, st, m', key, rfl, hst, hb, rfl, rfl⟩
        · exact hF.keep hb hlast
        · rw [List.filterMap_nil, List.append_nil]
          exact hF.restart hst hb
  exact key.nodup

end

/-! ### Two histories -/

def firstKey : SecretKey := ⟨List.replicate 32 7, rfl⟩

def firstManager : Manager := .withStore ⟨∅, none, some firstKey.bytes⟩ ⟨[], 0⟩ none

theorem boot_first : @boot recordCodec none firstKey none = .ok (firstManager, firstKey) := rfl

/-- `spawn` in slot `t`, from the call to its return. -/
def spawnActs (t : ℕ) (spec : Spec) (pid : Pid) : List (LifeAct Action) :=
  .act (.call t (.spawn spec)) :: .act (.sched t {}) :: .act (.sched t { spawn := some pid }) ::
    List.replicate 3 (.act (.sched t {}))

/-- A write at or above the counter on disk is clear. -/
def writesAbove (tr : Lts.Tr World (LifeAct Action) Event) : Bool :=
  match tr.act with
  | .act (.sched t _) =>
      match tr.pre.tasks t, tr.pre.mgr.store with
      | some task, some st =>
          task.puts.all (fun id => decide (st.nextHandle.getD 0 ≤ id)) &&
          match task with
          | .forgetStore id => decide (id ≤ st.nextHandle.getD 0)
          | _ => true
      | _, _ => true
  | _ => true

theorem storeClear_of_writesAbove {tr : Lts.Tr World (LifeAct Action) Event}
    (h : writesAbove tr = true) : StoreClear tr := by
  intro t os task st ha ht hst
  rw [writesAbove, ha] at h
  simp only [ht, hst, Bool.and_eq_true] at h
  refine ⟨?_, ?_⟩
  · intro id hp
    rw [hp] at h
    exact .inl (by simpa using h.1)
  · rintro id rfl _
    exact .inl (by simpa using h.2)

def LifeAct.isRestart {α : Type} : LifeAct α → Bool
  | .act _ => false
  | .restart _ _ => true

/-- A child is relaunched once, exits and is forgotten; after a restart there is another. -/
def forgetActs : List (LifeAct Action) :=
  spawnActs 0 { cmd := "a", policy := .onFailure } 100 ++
  .act (.exit 0 (some 1)) :: List.replicate 7 (.act (.sched 0 {})) ++
  .act (.sched 0 { spawn := some 101 }) :: List.replicate 2 (.act (.sched 0 {})) ++
  .act (.exit 1 (some 0)) :: List.replicate 5 (.act (.sched 0 {})) ++
  .act (.call 1 (.forget 1)) :: List.replicate 2 (.act (.sched 1 {})) ++
  .restart firstKey none :: spawnActs 0 { cmd := "b" } 200

theorem handles_distinct_forget : ∃ l w,
    Lts.Run (@lifetimes recordCodec _ (@step recordCodec)) (World.start firstManager) l w ∧
    .launchChild 1 (some ⟨1, 101, 1, 1⟩) ∈ Lts.events l ∧ .forgotten 1 (.ok ()) ∈ Lts.events l ∧
    (∃ tr ∈ l, tr.act.isRestart = true) ∧ (∀ tr ∈ l, StoreClear tr) ∧
    returned l = [1, 2] ∧ (returned l).Nodup := by
  obtain ⟨l, w, hr, hp⟩ := Lts.run_of_exec (@lifetimes recordCodec _ (@step recordCodec))
    (World.start firstManager) forgetActs
    (fun p => p.1.all writesAbove && p.1.any (fun tr => tr.act.isRestart) &&
      decide (.launchChild 1 (some ⟨1, 101, 1, 1⟩) ∈ Lts.events p.1 ∧
        .forgotten 1 (.ok ()) ∈ Lts.events p.1 ∧ returned p.1 = [1, 2])) (by decide)
  rw [Bool.and_eq_true, Bool.and_eq_true, decide_eq_true_eq, List.all_eq_true, List.any_eq_true] at hp
  obtain ⟨⟨habove, hrestart⟩, hlaunched, hforgotten, hreturned⟩ := hp
  have hclear : ∀ tr ∈ l, StoreClear tr := fun tr htr => storeClear_of_writesAbove (habove tr htr)
  exact ⟨l, w, hr, hlaunched, hforgotten, hrestart, hclear, hreturned,
    @handles_distinct recordCodec _ _ _ _ _ _ boot_first l hr hclear⟩

/-- Two handles are spawned; the first is relaunched, which sets the counter on disk back;
the second exits and is forgotten; after a restart the next `spawn` gets its handle. -/
def reuseActs : List (LifeAct Action) :=
  spawnActs 0 { cmd := "a", policy := .always } 100 ++ spawnActs 1 { cmd := "b" } 200 ++
  .act (.exit 0 (some 1)) :: List.replicate 7 (.act (.sched 0 {})) ++
  .act (.sched 0 { spawn := some 101 }) :: List.replicate 2 (.act (.sched 0 {})) ++
  .act (.exit 1 (some 0)) :: List.replicate 5 (.act (.sched 1 {})) ++
  .act (.call 2 (.forget 2)) :: List.replicate 2 (.act (.sched 2 {})) ++
  .restart firstKey none :: spawnActs 0 { cmd := "c" } 300

theorem handle_reused : ∃ m key l w, @boot recordCodec none firstKey none = .ok (m, key) ∧
    Lts.Run (@lifetimes recordCodec _ (@step recordCodec)) (World.start m) l w ∧
    ¬ (returned l).Nodup := by
  obtain ⟨l, w, hr, hp⟩ := Lts.run_of_exec (@lifetimes recordCodec _ (@step recordCodec))
    (World.start firstManager) reuseActs
    (fun p => decide (returned p.1 = [1, 2, 2])) (by decide)
  refine ⟨firstManager, firstKey, l, w, boot_first, hr, ?_⟩
  rw [of_decide_eq_true hp]
  decide

end MeshSupervisor
