import MeshSupervisor.History
import MeshSupervisor.Turns

/-! # Crash recovery

Memory and disk are updated by different calls on each path; between turns they agree in
the following sense (`Mirror`): the store is readable, holds the node's key, and its
record of a handle reloads to the same tombstone as the handle's table entry.  The
statuses themselves may differ, since a reloaded tombstone is `Stale` in memory and still
`Running` on disk.

`crash_recovery`: in every state of every history of lifetimes that interleave at await
points, crashing and booting again gives exactly the tombstones of the table before the
crash under the same key, and booting twice gives what booting once gives. -/

namespace MeshSupervisor

open Wire (Codec)

def ProcEntry.tombstone (e : ProcEntry) : ProcEntry where
  pid := e.pid
  status := reloaded e.status
  stdin := none
  stdout := none
  restarts := 0
  armed := false

section
variable [Codec Record]

/-- Table and store agree up to a reload. -/
structure Mirror (key : SecretKey) (procs : Table Handle ProcEntry) (st : Store) : Prop where
  readable : st.Readable
  secret : st.secret = some key.bytes
  entry : ∀ h, (st.record? h).map ProcEntry.stale = (procs.lookup h).map ProcEntry.tombstone

def Manager.Mirrored (key : SecretKey) (m : Manager) : Prop :=
  ∃ st, m.store = some st ∧ Mirror key m.procs st

/-! ### The updates of memory and disk, path by path -/

namespace Mirror

variable {key : SecretKey} {procs procs' : Table Handle ProcEntry} {st : Store}

theorem congr (h : Mirror key procs st)
    (heq : ∀ k, (procs'.lookup k).map ProcEntry.tombstone = (procs.lookup k).map ProcEntry.tombstone) :
    Mirror key procs' st :=
  ⟨h.readable, h.secret, fun k => (h.entry k).trans (heq k).symm⟩

theorem put (h : Mirror key procs st) {id : Handle} {r : Record} {e : ProcEntry}
    (hr : r.status = .running) (he : e.status = .running) (hpid : e.pid = r.pid)
    (hl : ∀ k, procs'.lookup k = if k = id then some e else procs.lookup k) :
    Mirror key procs' (st.put id r) := by
  refine ⟨h.readable.put id r, h.secret, ?_⟩
  intro k
  rw [Store.record?_put, hl]
  split_ifs with hk
  · simp only [Option.map_some, ProcEntry.stale, ProcEntry.tombstone, hr, he, hpid]
  · exact h.entry k

theorem remove (h : Mirror key procs st) (id : Handle) :
    Mirror key (AList.erase id procs) (st.remove id) := by
  refine ⟨h.readable.remove id, h.secret, ?_⟩
  intro k
  rw [Store.record?_remove, Table.lookup_erase_if]
  split_ifs with hk
  · rfl
  · exact h.entry k

theorem exited (h : Mirror key procs st) {id : Handle} {code : Option ℤ} {st' : Store}
    (hs : st.setStatus id (.exited code) = .ok st')
    (hl : ∀ k, procs'.lookup k = if k = id then
      (procs.lookup id).map (fun e => { e with status := .exited code }) else procs.lookup k) :
    Mirror key procs' st' := by
  refine ⟨h.readable.setStatus hs, (Store.setStatus_frame hs).2.2.trans h.secret, ?_⟩
  intro k
  rw [Store.record?_setStatus hs, hl]
  split_ifs with hk
  · -- the record and the entry are there together, with the same pid
    have hid := h.entry id
    cases hrec : st.record? id with
    | none =>
        rw [hrec] at hid
        cases hent : procs.lookup id with
        | none => rfl
        | some e => rw [hent] at hid; cases hid
    | some r =>
        rw [hrec] at hid
        cases hent : procs.lookup id with
        | none => rw [hent] at hid; cases hid
        | some e =>
            rw [hent] at hid
            have hpid : r.pid = e.pid := congrArg ProcEntry.pid (Option.some.inj hid)
            simp only [Option.map_some, ProcEntry.stale, ProcEntry.tombstone, hpid]
  · exact h.entry k

/-- The table a reload builds agrees with the store it was built from. -/
theorem reload (hr : st.Readable) (hs : st.secret = some key.bytes)
    (hl : ∀ k, procs'.lookup k = (st.record? k).map ProcEntry.stale) : Mirror key procs' st := by
  refine ⟨hr, hs, ?_⟩
  intro k
  rw [hl, Option.map_map]
  cases st.record? k with
  | none => rfl
  | some r =>
      simp only [Option.map_some, Function.comp_apply, ProcEntry.stale, ProcEntry.tombstone]
      cases r.status <;> rfl

end Mirror

/-! ### Turns keep the agreement -/

theorem Manager.Mirrored.congr {key : SecretKey} {m m' : Manager} (h : m.Mirrored key)
    (hst : m'.store = m.store) (hp : m'.procs = m.procs) : m'.Mirrored key := by
  obtain ⟨st, hs, hm⟩ := h
  exact ⟨st, hst.trans hs, by rw [hp]; exact hm⟩

theorem Manager.Mirrored.exitTurn {key : SecretKey} {m : Manager} (h : m.Mirrored key) (id : Handle)
    (code : Option ℤ) (os : Os) : (m.exitTurn id code os).Mirrored key := by
  obtain ⟨st, hs, hm⟩ := h
  obtain ⟨st', hst'⟩ := Store.setStatus_ok hm.readable id (.exited code)
  refine ⟨st', ?_, hm.exited hst' (fun k => m.lookup_recordExit id k code)⟩
  simp only [Manager.exitTurn, Manager.removeLeaf, Manager.saveExit, Manager.recordExit, hs,
    Option.map_some, hst']

theorem Manager.Mirrored.turn {key : SecretKey} {m m' : Manager} {os : Os} {task : Task}
    {next : Option Task} {evs : List Event} (h : m.Mirrored key)
    (hstep : TurnStep m os task m' next evs) : m'.Mirrored key := by
  cases hstep with
  | spawnFails spec _ hl =>
      have hf := Manager.launchChild_frame hl
      exact h.congr hf.2.2.1 hf.1
  | spawns spec m₁ l hl =>
      have hf := Manager.launchChild_frame hl
      obtain ⟨st, hs, hm⟩ := h.congr hf.2.2.1 hf.1
      refine ⟨st.put (m.next + 1) ⟨spec.cmd, spec.args, spec.env, l.pid, .running⟩, ?_,
        hm.put (e := ⟨l.pid, .running, some l.stdin, some l.stdout, 0, true⟩) rfl rfl rfl
          (fun k => m₁.lookup_insertEntry (m.next + 1) k l)⟩
      simp only [Manager.persist, Manager.insertEntry, hs, Option.map_some]
  | stopIdle id _ hd | stopRunning id _ pid hd =>
      obtain ⟨e, he, rfl, -⟩ := Manager.disarm_ok hd
      obtain ⟨st, hs, hm⟩ := h
      refine ⟨st, hs, hm.congr ?_⟩
      intro k
      simp only [Table.lookup_modify]
      split_ifs with hk
      · subst hk; rw [he]; rfl
      · rfl
  | forgets id _ hr =>
      obtain ⟨e, -, -, rfl⟩ := Manager.removeEntry_ok hr
      obtain ⟨st, hs, hm⟩ := h
      refine ⟨st.remove id, ?_, hm.remove id⟩
      simp only [Manager.removeRecord, hs, Option.map_some]
  | killAllWaits hx => exact h.congr rfl rfl
  | killAllReturns hx =>
      have hf := Manager.force_frame { m with shutdown := true } os m.runningPids
      exact h.congr hf.1 hf.2.1
  | pollReturns pids hx =>
      have hf := m.force_frame os pids
      exact h.congr hf.1 hf.2.1
  | exitEnds s code evs' hpc hx => exact h.exitTurn s.id code os
  | exitBacksOff s code attempt hpc hx => exact h.exitTurn s.id code os
  | relaunchFails s code _ hpc hl =>
      have hf := Manager.launchChild_frame hl
      exact h.congr hf.2.2.1 hf.1
  | relaunches s code m₁ l hpc harm hsd hl =>
      have hf := Manager.launchChild_frame hl
      obtain ⟨st, hs, hm⟩ := h.congr hf.2.2.1 hf.1
      -- an armed entry is there to be updated
      obtain ⟨e, he, -⟩ := Manager.isArmed_iff.mp harm
      have he₁ : m₁.procs.lookup s.id = some e := by rw [hf.1]; exact he
      refine ⟨st.put s.id ⟨s.spec.cmd, s.spec.args, s.spec.env, l.pid, .running⟩, ?_,
        hm.put (e := ⟨l.pid, .running, some l.stdin, some l.stdout, e.restarts + 1, e.armed⟩)
          rfl rfl rfl (fun k => ?_)⟩
      · simp only [Manager.persist, Manager.applyLaunch, hs, Option.map_some]
      · rw [show ((m₁.applyLaunch s.id l).persist s.id s.spec l.pid .running).procs =
          (m₁.applyLaunch s.id l).procs from rfl, Manager.lookup_applyLaunch, he₁]
        rfl
  | _ => exact h

/-! ### Booting -/

omit [Codec Record] in
theorem Store.secretKey_ok {st st' : Store} {generated key : SecretKey}
    (h : st.secretKey generated = .ok (key, st')) :
    st'.secret = some key.bytes ∧ st'.records = st.records := by
  unfold Store.secretKey at h
  cases hs : st.secret with
  | none =>
      rw [hs] at h
      obtain ⟨rfl, rfl⟩ := Prod.mk.inj (Except.ok.inj h)
      exact ⟨rfl, rfl⟩
  | some bytes =>
      rw [hs] at h
      dsimp only at h
      split_ifs at h with hlen
      obtain ⟨rfl, rfl⟩ := Prod.mk.inj (Except.ok.inj h)
      exact ⟨hs, rfl⟩

theorem boot_mirrored {file : Option Store} {generated key : SecretKey} {cg : Option Cgroups}
    {m : Manager} (h : boot file generated cg = .ok (m, key)) : m.Mirrored key := by
  obtain ⟨st, loaded, hk, hl, rfl⟩ := boot_ok h
  exact ⟨st, rfl, .reload (Store.load_ok hl).readable (Store.secretKey_ok hk).1
    (lookup_withStore hl cg)⟩

/-- Booting from a store that agrees with the table succeeds, under the same key, with the
table's tombstones. -/
theorem Mirror.boot {key : SecretKey} {procs : Table Handle ProcEntry} {st : Store}
    (h : Mirror key procs st) (generated : SecretKey) (cg : Option Cgroups) :
    ∃ m, boot (some st) generated cg = .ok (m, key) ∧ m.store = some st ∧
      ∀ k, m.procs.lookup k = (procs.lookup k).map ProcEntry.tombstone := by
  obtain ⟨loaded, hl⟩ := Store.load_total h.readable
  have hk : st.secretKey generated = .ok (key, st) := by
    simp only [Store.secretKey, h.secret, dif_pos key.length_eq]
  refine ⟨.withStore st loaded cg, ?_, rfl, ?_⟩
  · simp only [MeshSupervisor.boot, Store.openFile, hk, hl]
  · intro k
    rw [lookup_withStore hl, h.entry]

/-- From the store of `w`, a crash and the next start-up give the tombstones of `w`'s table
under the same key, and another start-up gives the same table again. -/
def Recovers (key : SecretKey) (w : World) : Prop :=
  ∃ st, w.mgr.store = some st ∧ ∀ generated₁ cg₁, ∃ m₁ st₁,
    boot (some st) generated₁ cg₁ = .ok (m₁, key) ∧ m₁.store = some st₁ ∧
    (∀ h, m₁.procs.lookup h = (w.mgr.procs.lookup h).map ProcEntry.tombstone) ∧
    ∀ generated₂ cg₂, ∃ m₂, boot (some st₁) generated₂ cg₂ = .ok (m₂, key) ∧
      ∀ h, m₂.procs.lookup h = m₁.procs.lookup h

theorem mirrored_history {file : Option Store} {generated key : SecretKey} {cg : Option Cgroups}
    {m₀ : Manager} (h₀ : boot file generated cg = .ok (m₀, key))
    {l : List (Lts.Tr World (LifeAct Turn) Event)} {w : World}
    (hr : Lts.Run (lifetimes turn) (World.start m₀) l w) : Calm w ∧ w.mgr.Mirrored key := by
  refine (hr.invariant (I := fun w => Calm w ∧ w.mgr.Mirrored key)
    ⟨calm_initial (boot_initial h₀), boot_mirrored h₀⟩ ?_).1
  rintro tr hv ⟨hcalm, hm⟩
  rcases lifetimes_cases hv with ⟨a, -, ht⟩ | ⟨generated', cg', st, m, key', -, hst, hb, hw, -⟩
  · refine ⟨hcalm.turn ht, ?_⟩
    rcases turn_cases hcalm ht with ⟨t, os, task, m', next, -, hstep, heq⟩ |
      ⟨n, code, c, -, -, -, -, heq⟩
    · rw [heq]; exact hm.turn hstep
    · rw [heq]; exact hm.congr rfl rfl
  · rw [hw]
    refine ⟨calm_initial (boot_initial hb), ?_⟩
    obtain ⟨st', hst', hmir⟩ := hm
    obtain rfl := Option.some.inj (hst.symm.trans hst')
    obtain ⟨m', hb', -, -⟩ := hmir.boot generated' cg'
    rw [hb] at hb'
    obtain ⟨rfl, rfl⟩ := Prod.mk.inj (Except.ok.inj hb')
    exact boot_mirrored hb

/-- **Crash recovery is faithful.** -/
theorem crash_recovery {file : Option Store} {generated key : SecretKey} {cg : Option Cgroups}
    {m₀ : Manager} (h₀ : boot file generated cg = .ok (m₀, key))
    {l : List (Lts.Tr World (LifeAct Turn) Event)} {w : World}
    (hr : Lts.Run (lifetimes turn) (World.start m₀) l w) : Recovers key w := by
  obtain ⟨-, st, hst, hmir⟩ := mirrored_history h₀ hr
  refine ⟨st, hst, ?_⟩
  intro generated₁ cg₁
  obtain ⟨m₁, hb₁, hst₁, hl₁⟩ := hmir.boot generated₁ cg₁
  refine ⟨m₁, st, hb₁, hst₁, hl₁, ?_⟩
  intro generated₂ cg₂
  obtain ⟨m₂, hb₂, -, hl₂⟩ := hmir.boot generated₂ cg₂
  exact ⟨m₂, hb₂, fun h => (hl₂ h).trans (hl₁ h).symm⟩

end

/-- A history with a relaunch, a restart and a running child after it. -/
theorem crash_recovery_history : ∃ l w,
    Lts.Run (@lifetimes recordCodec _ (@turn recordCodec)) (World.start firstManager) l w ∧
    (w.mgr.procs.lookup 1).map ProcEntry.status = some .stale ∧
    (w.mgr.procs.lookup 2).map ProcEntry.status = some .running ∧ @Recovers recordCodec firstKey w := by
  obtain ⟨l, w, hr, hp⟩ := Lts.run_of_exec (@lifetimes recordCodec _ (@turn recordCodec))
    (World.start firstManager)
    [.act (.call 0 (.spawn { cmd := "a", policy := .always }) { spawn := some 100 }),
      .act (.exit 0 (some 1)), .act (.sched 0 {}), .act (.sched 0 { spawn := some 101 }),
      .restart firstKey none, .act (.call 0 (.spawn { cmd := "b" }) { spawn := some 200 })]
    (fun p => decide ((p.2.mgr.procs.lookup 1).map ProcEntry.status = some .stale ∧
      (p.2.mgr.procs.lookup 2).map ProcEntry.status = some .running)) (by decide)
  obtain ⟨h₁, h₂⟩ := of_decide_eq_true hp
  exact ⟨l, w, hr, h₁, h₂, @crash_recovery recordCodec _ _ _ _ _ boot_first l w hr⟩

end MeshSupervisor
