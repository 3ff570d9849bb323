import MeshSupervisor.Launch

/-! # What a launch comes to

* `launch_confined`: what a child that was launched is confined to, and what a failed launch leaves.
* `launch_refines`: a launch is a launch of the manager, for some answers of the operating system.

Both read off `launchChild_ends`, which follows the program from the leaf to the sandbox. -/

namespace MeshSupervisor

open Prog

section Launch

variable {ours : Path → Prop} {E : CgroupFs → CgroupFs → Prop} {k k₀ : Kernel} {cg : CgroupDir}
  {id : Handle} {spec : Spec}

/-- Only the cgroup file system has changed, and there nothing of ours. -/
structure Beside (ours : Path → Prop) (k k' : Kernel) : Prop where
  same : Same ours k.host.fs k'.host.fs
  rest : k' = k.withFs k'.host.fs

theorem Elsewhere.wp_launch (hE : Elsewhere ours E) (hs : k.host.fs.tree.Sound mount)
    {c : LaunchCall} {Q : c.Answer → Kernel → Prop}
    (hQ : ∀ k₁ r k', Beside ours k k₁ → LaunchStep E k₁ c r k' → Q r k') :
    (ask c : LaunchProg c.Answer).wp (LaunchEnv E) Q k := by
  rintro r k' ⟨k₁, ⟨fs, he, rfl⟩, hstep⟩
  exact hQ _ r k' ⟨⟨hE.sound he hs, hE.see he⟩, rfl⟩ hstep

/-- A program on the file system does in a launch what it does by itself, and nothing else. -/
theorem wp_onFs {α : Type} {p : FsProg α} {Q : α → CgroupFs → Prop}
    (h : p.wp (interfere E FsStep) Q k.host.fs) :
    (onFs p).wp (LaunchEnv E) (fun a k' => Q a k'.host.fs ∧ k' = k.withFs k'.host.fs) k := by
  apply wp_hoist (fun k => k.host.fs) (fun k' => k' = k.withFs k'.host.fs) _ h rfl
  rintro k₁ c r k₂ hk₁ ⟨_, ⟨fs, he, rfl⟩, fs', hstep, rfl⟩
  refine ⟨⟨fs, he, hstep⟩, ?_⟩
  rw [hk₁]
  rfl

theorem Same.enter {h : Host} {dir : Path} (hs : h.fs.tree.Sound mount) (pid : Pid)
    (hdir : (h.fs.tree.at? dir).isSome = true) : Same ours h.fs (h.enter pid dir).fs := by
  refine ⟨⟨hs.parent, ?_⟩, fun _ _ => rfl⟩
  intro proc q hq
  have hlookup := (Table.lookup_insert_if h.fs.tree.place pid proc dir).symm.trans hq
  split_ifs at hlookup
  · obtain rfl := Option.some.inj hlookup
    exact hdir
  · exact hs.placed proc q hlookup

theorem Same.leave {h : Host} (hs : h.fs.tree.Sound mount) (pid : Pid) :
    Same ours h.fs (h.leave pid).fs := by
  refine ⟨⟨hs.parent, ?_⟩, fun _ _ => rfl⟩
  intro proc q hq
  have hlookup := (Table.lookup_erase_if h.fs.tree.place pid proc).symm.trans hq
  split_ifs at hlookup
  exact hs.placed proc q hlookup

theorem Elsewhere.besides (hE : Elsewhere ours E) (pid : Pid) : Besides ours pid (Aside E pid) :=
  ⟨fun he hs => ⟨hE.sound he.1 hs, hE.see he.1⟩, fun he => he.2.1, fun he => he.2.2.1,
    fun he => he.2.2.2⟩

structure RunsIn (k : Kernel) (command : Command) (sb : Sandbox) (pid : Pid) (k' : Kernel) : Prop where
  leaf : ∀ dir, sb.cgroupProcs = some dir → k'.host.fs.tree.place.lookup pid = some dir
  confined : ∃ c c', k'.started.lookup pid = some (command, c') ∧ c.root = k.root ∧ c.cwd = k.cwd ∧
    sb.InForce c k.host.mounts c'

/-- What the start of a child comes to. -/
structure StartEnd (ours : Path → Prop) (k : Kernel) (command : Command) (sb : Sandbox)
    (r : Except Errno Pid) (k' : Kernel) : Prop where
  same : Same ours k.host.fs k'.host.fs
  mounts : k'.host.mounts = k.host.mounts
  runs : ∀ pid, r = .ok pid → RunsIn k command sb pid k'
  failed : ∀ e, r = .error e → k'.started = k.started

theorem Started.ends (hE : Elsewhere ours E) (hs : k.host.fs.tree.Sound mount) {command : Command}
    {sb : Sandbox} {r : Except Errno Pid} {k' : Kernel} (h : Started E k command sb r k') :
    StartEnd ours k command sb r k' := by
  cases r with
  | ok pid =>
      obtain ⟨c, h₁, x', rfl, hfork, hruns, rfl⟩ := h
      obtain ⟨dir, hdir, rfl⟩ := hfork.host
      have hsame : Same ours _ _ := .enter hs c.pid hdir
      have hend := wp_iff_runs.mp (apply_ends (hE.besides c.pid) hsame.sound hfork.ns sb) _ _ hruns
      obtain ⟨hheld, hforce⟩ := hend
      constructor
      · exact hsame.trans hheld.same
      · exact hheld.mounts
      · rintro _ ⟨⟩
        exact ⟨hheld.place, c, x'.2, by simp, hfork.root, hfork.cwd, hforce⟩
      · rintro e ⟨⟩
  | error e =>
      rcases h with rfl | ⟨c, h₁, x', r, hfork, hruns, rfl⟩
      · exact ⟨.refl hs, rfl, by rintro pid ⟨⟩, fun _ _ => rfl⟩
      · obtain ⟨dir, hdir, rfl⟩ := hfork.host
        have hsame : Same ours _ _ := .enter hs c.pid hdir
        have hend := wp_iff_runs.mp (apply_ends (hE.besides c.pid) hsame.sound hfork.ns sb) _ _ hruns
        have hheld : HostKept ours c.pid none (k.host.enter c.pid dir) x'.1 := by
          cases r with
          | ok _ => exact hend.1.forget
          | error _ => exact hend
        constructor
        · exact (hsame.trans hheld.same).trans (.leave hheld.same.sound c.pid)
        · exact hheld.mounts
        · rintro pid ⟨⟩
        · exact fun _ _ => rfl

/-- The sandbox for a child: with the path of the store, if that is to be hidden and is found. -/
def Kernel.sandbox (k : Kernel) (hasStore : Bool) (spec : Spec) (procs : Option Path) : Sandbox :=
  .new spec.limits spec.isolate procs (if spec.isolate && hasStore then k.storePath else none)

/-- What a launch comes to, after the creation of the leaf. -/
def LaunchEnd (ours : Path → Prop) (k : Kernel) (dir : Path) (hasStore : Bool) (spec : Spec)
    (procs : Option Path) (fs : CgroupFs) (r : Except Errno Pid) (k' : Kernel) : Prop :=
  match r with
  | .ok pid => Same ours fs k'.host.fs ∧
      RunsIn k (launchCommand spec) (k.sandbox hasStore spec procs) pid k'
  | .error _ => Swept ours dir fs k'.host.fs ∧ k'.started = k.started

theorem canonicalStore_beside (hE : Elsewhere ours E) (hs : k.host.fs.tree.Sound mount)
    (isolate hasStore : Bool) :
    (canonicalStore isolate hasStore).wp (LaunchEnv E)
      (fun r k' => r = (if isolate && hasStore then k.storePath else none) ∧ Beside ours k k') k := by
  unfold canonicalStore
  split_ifs
  · apply hE.wp_launch hs
    rintro k₁ r k' hk ⟨rfl, rfl⟩
    refine ⟨?_, hk⟩
    rw [hk.rest]
    rfl
  · exact ⟨rfl, .refl hs, rfl⟩

theorem launchChild_ends (hE : Elsewhere ours E) (hs : k.host.fs.tree.Sound mount)
    (hdir : ours (cg.leaf id)) (hasStore : Bool) :
    (launchChild cg hasStore id spec).wp (LaunchEnv E)
      (fun r k' => ∃ procs fs, Created ours (cg.leaf id) spec.limits k.host.fs procs fs ∧
        LaunchEnd ours k (cg.leaf id) hasStore spec procs fs r k' ∧ k'.host.mounts = k.host.mounts) k := by
  unfold launchChild
  rw [wp_bind]
  apply wp_mono (wp_onFs (createLeaf_created hE hdir hs spec.limits))
  rintro procs k₁ ⟨hcreated, hk₁⟩
  rw [wp_bind]
  apply wp_mono (canonicalStore_beside hE hcreated.sound _ _)
  rintro _ k₂ ⟨rfl, hk₂⟩
  rw [wp_bind]
  apply hE.wp_launch hk₂.same.sound
  intro k₃ r k₄ hk₃ hstart
  have hsame := hk₂.same.trans hk₃.same
  have hend := hstart.ends hE hsame.sound
  -- up to here nothing but the cgroup file system has changed
  have hrest : k₃ = k.withFs k₃.host.fs := by
    rw [hk₃.rest, hk₂.rest, hk₁]
    rfl
  have hmounts : k₃.host.mounts = k.host.mounts := by
    rw [hrest]
    rfl
  cases r with
  | ok pid =>
      refine ⟨procs, k₁.host.fs, hcreated, ⟨hsame.trans hend.same, ?_⟩, hend.mounts.trans hmounts⟩
      have hpath : k₁.storePath = k.storePath := by
        rw [hk₁]
        rfl
      rw [hpath] at hend
      obtain ⟨hleaf, c, c', hstarted, hroot, hcwd, hforce⟩ := hend.runs pid rfl
      refine ⟨hleaf, c, c', hstarted, ?_, ?_, hmounts ▸ hforce⟩
      · rw [hroot, hrest]
        rfl
      · rw [hcwd, hrest]
        rfl
  | error e =>
      dsimp only
      rw [wp_bind]
      apply wp_mono (wp_onFs (remove_swept hE hdir (hsame.trans hend.same).sound))
      rintro _ k₅ ⟨hswept, hk₅⟩
      refine ⟨procs, k₁.host.fs, hcreated, ⟨.of_same (hsame.trans hend.same) hdir hswept, ?_⟩, ?_⟩
      · rw [hk₅]
        show k₄.started = k.started
        rw [hend.failed e rfl, hrest]
        rfl
      · rw [hk₅]
        exact hend.mounts.trans hmounts

/-- The leaf is there to be joined, or what was wrong with it has been logged. -/
theorem Created.log {dir : Path} {limits : Limits} {s s' : CgroupFs} {procs : Option Path}
    (h : Created ours dir limits s procs s') :
    ∃ w, s'.warned dir = s.warned dir ++ w ∧ (procs = some dir ∨ procs = none ∧ w ≠ []) ∧
      (w = [] → procs = some dir ∧ CapsAsked s' dir limits) := by
  obtain ⟨w, hw⟩ := h.warned
  have hquiet : w = [] → procs = some dir ∧ CapsAsked s' dir limits := by
    rintro rfl
    exact h.quiet (by rw [hw, List.append_nil])
  have hnone : procs = none → w ≠ [] := by
    rintro rfl hnil
    cases (hquiet hnil).1
  obtain ⟨o, hseen⟩ := h.outcome
  refine ⟨w, hw, ?_, hquiet⟩
  cases o with
  | mkdirFails => exact .inr ⟨hseen.1, hnone hseen.1⟩
  | procsFails => exact .inr ⟨hseen.1, hnone hseen.1⟩
  | opened => exact .inl hseen.1

/-- **A launch is a launch of the manager**, for some answers of the operating system: with the same
result, and the leaves of the table are those on the file system again. -/
theorem launch_refines (hE : Elsewhere (OurDir cg.parent) E) {m : Manager} {leaves : Cgroups}
    (hm : m.cgroups = some leaves) (hv : View cg leaves k.host.fs) (hasStore : Bool) (id : Handle)
    (spec : Spec) :
    (launchChild cg hasStore id spec).wp (LaunchEnv E)
      (fun r k' => ∃ os leaves', (m.launchChild id spec os).1.cgroups = some leaves' ∧
        View cg leaves' k'.host.fs ∧
        (m.launchChild id spec os).2.map Launched.pid = r.toOption) k := by
  apply wp_mono (launchChild_ends hE hv.sound (.inr ⟨_, rfl⟩) hasStore)
  rintro r k' ⟨procs, fs, hcreated, hend, -⟩
  obtain ⟨outcome, hview, hprocs⟩ := hcreated.view hv
  cases r with
  | ok pid =>
      refine ⟨{ leaf := outcome, spawn := some pid }, ?_⟩
      simp only [Manager.launchChild, hm, Option.map_some]
      refine ⟨_, rfl, ?_, rfl⟩
      split_ifs
      · exact (hview.join id _).same hend.1
      · exact hview.same hend.1
  | error e =>
      obtain ⟨rmdir, hremoved, -⟩ := hend.1.view hview
      refine ⟨{ leaf := outcome, spawn := none, rmdir := rmdir }, ?_⟩
      simp only [Manager.launchChild, hm, Option.map_some]
      exact ⟨_, rfl, hremoved, rfl⟩

end Launch

/-! ### In the session -/

section Session

def sessionFork (k : Kernel) : ChildProc := { sessionChild with root := k.root, cwd := k.cwd }

def sessionLaunch (k : Kernel) : (c : LaunchCall) → c.Answer × Kernel
  | .fs c => ((obliging sessionSelf k.host.fs c).1, k.withFs (obliging sessionSelf k.host.fs c).2)
  | .canonicalize => (k.storePath, k)
  | .spawn command sb =>
      if (k.host.fs.tree.at? sessionHost).isSome = true then
        let x := sb.apply.run.exec obligingSys
          (k.host.enter (sessionFork k).pid sessionHost, sessionFork k)
        match x.1 with
        | .ok _ => (.ok (sessionFork k).pid, { k with
            host := x.2.1
            started := AList.insert (sessionFork k).pid (command, x.2.2) k.started })
        | .error e => (.error e, { k with host := x.2.1.leave (sessionFork k).pid })
      else (.error 11, k)

theorem sessionLaunch_step (ours : Path → Prop) (k : Kernel) (c : LaunchCall) :
    LaunchEnv (outside ours) k c (sessionLaunch k c).1 (sessionLaunch k c).2 := by
  refine ⟨k, ⟨k.host.fs, ⟨id, fun _ _ => rfl⟩, rfl⟩, ?_⟩
  cases c with
  | fs c => exact ⟨_, obliging_step sessionSelf k.host.fs c, rfl⟩
  | canonicalize => exact ⟨rfl, rfl⟩
  | spawn command sb =>
      unfold sessionLaunch
      dsimp only
      split_ifs with hdir
      · have hfork : Forked k (sessionFork k) (k.host.enter (sessionFork k).pid sessionHost) :=
          ⟨rfl, rfl, rfl, rfl, sessionHost, hdir, rfl⟩
        have haside : ∀ h, Aside (outside ours) (sessionFork k).pid h h :=
          fun h => ⟨⟨id, fun _ _ => rfl⟩, rfl, rfl, rfl⟩
        have hruns := exec_runs (obligingSys_childStep haside) sb.apply.run
          (k.host.enter (sessionFork k).pid sessionHost, sessionFork k)
        split
        · rename_i hok
          rw [hok] at hruns
          exact ⟨sessionFork k, _, _, rfl, hfork, hruns, rfl⟩
        · exact .inr ⟨sessionFork k, _, _, _, hfork, hruns, rfl⟩
      · exact .inl rfl

def sessionKernel : Kernel where
  host := ⟨sessionReady, ⟨∅, 1⟩, true⟩
  root := ⟨0, []⟩
  cwd := ⟨0, ["home", "user"]⟩
  storePath := some ["home", "user", "mesh-supervisor.redb"]
  started := ∅

def sessionSpec : Spec := { cmd := "sleep", args := ["60"], limits := sessionLimits, isolate := true }

def sessionLaunched : Kernel :=
  ((launchChild sessionCg true 1 sessionSpec).exec sessionLaunch sessionKernel).2

theorem sessionLaunched_run :
    Runs (LaunchEnv (outside (OurDir sessionCg.parent))) sessionKernel
      (launchChild sessionCg true 1 sessionSpec) (.ok 4242) sessionLaunched := by
  have hok : ((launchChild sessionCg true 1 sessionSpec).exec sessionLaunch sessionKernel).1 =
      .ok 4242 := by
    decide
  rw [← hok]
  exact exec_runs (sessionLaunch_step _) _ _

theorem launch_refines_session : ∃ os leaves',
    (Manager.launchChild { Manager.new with cgroups := some ⟨∅⟩ } 1 sessionSpec os).1.cgroups =
        some leaves' ∧
      View sessionCg leaves' sessionLaunched.host.fs := by
  have h := wp_iff_runs.mp (launch_refines (outside_elsewhere _)
    (m := { Manager.new with cgroups := some ⟨∅⟩ }) rfl sessionReady_view true 1 sessionSpec) _ _
    sessionLaunched_run
  obtain ⟨os, leaves', hm, hview, -⟩ := h
  exact ⟨os, leaves', hm, hview⟩

end Session

end MeshSupervisor
