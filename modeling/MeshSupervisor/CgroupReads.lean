import MeshSupervisor.CgroupRuns

/-! # What the supervisor learns from the cgroup file system

Two functions only read: `parent_with_memory` looks for the place to work in, and `usage` for the
counters of a child.  Given texts as the kernel writes them, they find what is there.

* `parentWithMemory_nearest`: the nearest ancestor of our own group that hands on the memory
  controller is found exactly when there is one.
* `usage_reports`: a child is reported with the counters of its leaf, or not at all, and the latter
  only if a counter could not be read. -/

namespace MeshSupervisor

open Prog Text

/-! ### The place to work in -/

/-- The group hands the memory controller on to its children. -/
def GrantsMemory (s : CgroupFs) (q : Path) : Prop :=
  ∃ g, s.tree.at? q = some g ∧ "memory" ∈ g.control

/-- A proper ancestor of `own` in the file system that hands the memory controller on. -/
structure Candidate (s : CgroupFs) (own q : Path) : Prop where
  mounted : mount <+: q
  above : q <+: own
  proper : q ≠ own
  grants : GrantsMemory s q

/-- The candidate that all others are above. -/
structure Nearest (s : CgroupFs) (own host : Path) : Prop where
  candidate : Candidate s own host
  nearest : ∀ q, Candidate s own q → q <+: host

/-- The kernel tells our own group, below the mount, in the first line of `/proc/self/cgroup`, and
lets the controllers of every group be read. -/
def Tells (rel : List Char) (s : CgroupFs) : (c : FsCall) → c.Answer → Prop
  | .readSelf, r => ∃ rest, r = some ("0::/".toList ++ rel ++ '\n' :: rest)
  | .readFile dir file, r =>
      file = "cgroup.subtree_control" → (s.tree.at? dir).isSome = true → r.isSome = true
  | _, _ => True

section Search

variable {s : CgroupFs} {p q host : Path} {x : String}

theorem candidate_concat :
    Candidate s (p ++ [x]) q ↔ mount <+: q ∧ q <+: p ∧ GrantsMemory s q := by
  constructor
  · rintro ⟨hmount, habove, hproper, hgrants⟩
    exact ⟨hmount, (List.prefix_concat_iff.mp habove).resolve_left hproper, hgrants⟩
  · rintro ⟨hmount, hq, hgrants⟩
    refine ⟨hmount, hq.trans (List.prefix_append p [x]), ?_, hgrants⟩
    rintro rfl
    have hle := hq.length_le
    rw [List.length_append, List.length_singleton] at hle
    omega

theorem nearest_parent (hmount : mount <+: p) (h : GrantsMemory s p) :
    Nearest s (p ++ [x]) host ↔ host = p := by
  have hp : Candidate s (p ++ [x]) p := candidate_concat.mpr ⟨hmount, List.prefix_refl p, h⟩
  constructor
  · intro hn
    have hle := (candidate_concat.mp hn.candidate).2.1
    exact hle.eq_of_length_le (hn.nearest p hp).length_le
  · rintro rfl
    exact ⟨hp, fun q hq => (candidate_concat.mp hq).2.1⟩

theorem nearest_concat (h : ¬ GrantsMemory s p) : Nearest s (p ++ [x]) host ↔ Nearest s p host := by
  have hiff : ∀ q, Candidate s (p ++ [x]) q ↔ Candidate s p q := by
    intro q
    rw [candidate_concat]
    constructor
    · rintro ⟨hmount, hq, hgrants⟩
      refine ⟨hmount, hq, ?_, hgrants⟩
      rintro rfl
      exact h hgrants
    · exact fun hq => ⟨hq.mounted, hq.above, hq.grants⟩
  constructor
  · intro hn
    exact ⟨(hiff host).mp hn.candidate, fun q hq => hn.nearest q ((hiff q).mpr hq)⟩
  · intro hn
    exact ⟨(hiff host).mpr hn.candidate, fun q hq => hn.nearest q ((hiff q).mp hq)⟩

theorem not_nearest_mount : ¬ Nearest s mount host := by
  intro hn
  have hc := hn.candidate
  exact hc.proper (hc.above.eq_of_length_le hc.mounted.length_le)

/-- What is read of the controllers is what the group hands on. -/
theorem grants_iff {rel : List Char} {s' : CgroupFs} {r : Option (List Char)}
    (hstep : FsStep s (.readFile p "cgroup.subtree_control") r s')
    (htells : Tells rel s (.readFile p "cgroup.subtree_control") r) :
    s' = s ∧ (grants (r.getD []) "memory" = true ↔ GrantsMemory s p) := by
  obtain ⟨hsame, hread⟩ := hstep
  refine ⟨hsame, ?_⟩
  cases r with
  | none =>
      constructor
      · intro hgrants
        cases hgrants
      · rintro ⟨g, hg, -⟩
        have hsome := htells rfl (by rw [hg]; rfl)
        cases hsome
  | some text =>
      obtain ⟨g, hg, htext⟩ := hread rfl text rfl
      rw [Option.getD_some, grants, htext, List.any_map]
      constructor
      · intro hany
        obtain ⟨c, hc, heq⟩ := List.any_eq_true.mp hany
        have hname : c = "memory" := String.toList_inj.mp (beq_iff_eq.mp heq)
        exact ⟨g, hg, hname ▸ hc⟩
      · rintro ⟨g', hg', hmem⟩
        obtain rfl := Option.some.inj (hg.symm.trans hg')
        exact List.any_eq_true.mpr ⟨"memory", hmem, beq_self_eq_true _⟩

theorem searchUp_nearest (rel : List Char) (up : List String) :
    (searchUp up).wp (fun s c r s' => FsStep s c r s' ∧ Tells rel s c r)
      (fun r s' => s' = s ∧ ∀ host, r = some host ↔ Nearest s up.reverse host) s := by
  induction up with
  | nil =>
      refine ⟨rfl, ?_⟩
      intro host
      constructor
      · intro hnone
        cases hnone
      · intro hn
        exact absurd (List.prefix_nil.mp hn.candidate.above) hn.candidate.proper
  | cons x up ih =>
      rw [List.reverse_cons]
      unfold searchUp
      by_cases hmount : mount.isPrefixOf up.reverse = true
      · rw [if_pos hmount, wp_bind, wp_ask]
        rintro r s' ⟨hstep, htells⟩
        obtain ⟨rfl, hgrants⟩ := grants_iff hstep htells
        by_cases hg : grants (r.getD []) "memory" = true
        · rw [if_pos hg]
          refine ⟨rfl, ?_⟩
          intro host
          rw [nearest_parent (List.isPrefixOf_iff_prefix.mp hmount) (hgrants.mp hg),
            Option.some_inj, eq_comm]
        · rw [if_neg hg]
          have hno : ¬ GrantsMemory s' up.reverse := fun h => hg (hgrants.mpr h)
          by_cases htop : up.reverse = mount
          · rw [if_pos htop]
            refine ⟨rfl, ?_⟩
            intro host
            rw [nearest_concat hno, htop]
            exact iff_of_false (fun h => by cases h) not_nearest_mount
          · rw [if_neg htop]
            apply wp_mono ih
            rintro r₁ s₁ ⟨hsame, hnearest⟩
            refine ⟨hsame, ?_⟩
            intro host
            rw [nearest_concat hno, hnearest]
      · rw [if_neg hmount]
        refine ⟨rfl, ?_⟩
        intro host
        constructor
        · intro hnone
          cases hnone
        · intro hn
          obtain ⟨hm, hle, -⟩ := candidate_concat.mp hn.candidate
          exact absurd (List.isPrefixOf_iff_prefix.mpr (hm.trans hle)) hmount

/-- **The place to work in is the nearest there is.** -/
theorem parentWithMemory_nearest (rel : List Char) (hnl : '\n' ∉ rel)
    (hhead : rel.head? ≠ some '/') (hlast : ∀ c ∈ rel.getLast?, isWhitespace c = false) (s : CgroupFs) :
    parentWithMemory.wp (fun s c r s' => FsStep s c r s' ∧ Tells rel s c r)
      (fun r s' => s' = s ∧
        ∀ host, r = some host ↔ Nearest s (mount ++ components rel) host) s := by
  unfold parentWithMemory
  rw [wp_bind, wp_ask]
  rintro r s' ⟨hstep, rest, rfl⟩
  obtain rfl : s' = s := hstep
  rw [Option.bind_some, ownGroup_kernel hnl hhead hlast]
  have hsearch := searchUp_nearest (s := s') rel (mount ++ components rel).reverse
  rw [List.reverse_reverse] at hsearch
  exact hsearch

end Search

/-! ### The counters -/

/-- The text of `memory.current`. -/
def MemoryText (n : ℕ) (text : List Char) : Prop := text = n.repr.toList ++ ['\n']

/-- The text of `cpu.stat`: the counter has a line of its own, after any others. -/
def CpuText (n : ℕ) (text : List Char) : Prop :=
  ∃ (before : List (List Char)) (rest : List Char),
    (∀ l ∈ before, '\n' ∉ l ∧ stripPrefix "usage_usec ".toList (stripCr l) = none) ∧
    text = before.flatMap (· ++ ['\n']) ++ ("usage_usec ".toList ++ n.repr.toList ++ '\n' :: rest)

/-- A read finds one of the values, as it is written; it fails only if the file is not readable. -/
def Finds (written : ℕ → List Char → Prop) (values : Set ℕ) (readable : Prop)
    (r : Option (List Char)) : Prop :=
  (readable → r.isSome = true) ∧ ∀ text, r = some text → ∃ n ∈ values, written n text

/-- While it is read, the counters of `dir` take the values `mem` and `cpu`. -/
def Counts (dir : Path) (mem cpu : Set ℕ) (readable : Prop) : (c : FsCall) → c.Answer → Prop
  | .readFile q file, r => q = dir →
      (file = "memory.current" → Finds MemoryText mem readable r) ∧
        (file = "cpu.stat" → Finds CpuText cpu readable r)
  | _, _ => True

/-- A step in which the counters are as they are documented. -/
def CountStep (dir : Path) (mem cpu : Set ℕ) (readable : Prop) (s : CgroupFs) (c : FsCall)
    (r : c.Answer) (s' : CgroupFs) : Prop :=
  FsStep s c r s' ∧ Counts dir mem cpu readable c r

theorem Finds.read {written : ℕ → List Char → Prop} {values : Set ℕ} {readable : Prop}
    {r : Option (List Char)} {f : List Char → Option ℕ} (h : Finds written values readable r)
    (hf : ∀ n ∈ values, ∀ text, written n text → f text = some n) :
    (readable → r.bind f ≠ none) ∧ ∀ n, r.bind f = some n → n ∈ values := by
  obtain ⟨hreadable, hfind⟩ := h
  cases r with
  | none =>
      refine ⟨fun hr => absurd (hreadable hr) Bool.false_ne_true, ?_⟩
      intro n hn
      cases hn
  | some text =>
      obtain ⟨n, hn, htext⟩ := hfind text rfl
      rw [Option.bind_some, hf n hn text htext]
      refine ⟨fun _ => Option.some_ne_none n, ?_⟩
      intro n' hn'
      obtain rfl := Option.some.inj hn'
      exact hn

/-- **A child is reported with the counters of its leaf**, each as it was when it was read; and it
is reported whenever they can be read. -/
theorem usage_reports (cg : CgroupDir) (h : Handle) {mem cpu : Set ℕ} {readable : Prop}
    (hmem : ∀ n ∈ mem, n ≤ u64Max) (hcpu : ∀ n ∈ cpu, n ≤ u64Max) (s : CgroupFs) :
    (cg.usage h).wp (CountStep (cg.leaf h) mem cpu readable)
      (fun r s' => s' = s ∧ (readable → r ≠ none) ∧
        ∀ u, r = some u → u.memBytes ∈ mem ∧ u.cpuUsec ∈ cpu) s := by
  have hmemory : ∀ n ∈ mem, ∀ text, MemoryText n text → memCurrent text = some n := by
    rintro n hn text rfl
    exact memCurrent_kernel (hmem n hn)
  have hstat : ∀ n ∈ cpu, ∀ text, CpuText n text → usageUsec text = some n := by
    rintro n hn text ⟨before, rest, hbefore, rfl⟩
    exact usageUsec_kernel (hcpu n hn) hbefore rest
  have hnone : ∀ u : Usage, (none : Option Usage) = some u → u.memBytes ∈ mem ∧ u.cpuUsec ∈ cpu := by
    rintro u ⟨⟩
  unfold CgroupDir.usage
  rw [wp_bind, wp_ask]
  rintro r s₁ ⟨⟨rfl, -⟩, hcount⟩
  obtain ⟨hread, hvalue⟩ := ((hcount rfl).1 rfl).read hmemory
  split
  · rename_i hm
    exact ⟨rfl, fun hr => absurd hm (hread hr), hnone⟩
  · rename_i memBytes hm
    rw [wp_bind, wp_ask]
    rintro r' s₂ ⟨⟨rfl, -⟩, hcount'⟩
    obtain ⟨hread', hvalue'⟩ := ((hcount' rfl).2 rfl).read hstat
    split
    · rename_i hc
      exact ⟨rfl, fun hr => absurd hc (hread' hr), hnone⟩
    · rename_i cpuUsec hc
      refine ⟨rfl, fun _ => Option.some_ne_none _, ?_⟩
      rintro u ⟨⟩
      exact ⟨hvalue memBytes hm, hvalue' cpuUsec hc⟩

/-! ### In the session -/

theorem parentWithMemory_nearest_session :
    Nearest sessionFs (sessionHost ++ ["session.scope"]) sessionHost := by
  have hlast : ∀ c ∈ "user.slice/session.scope".toList.getLast?, isWhitespace c = false := by
    intro c hc
    obtain rfl := Option.some.inj hc
    decide
  have h := parentWithMemory_nearest "user.slice/session.scope".toList (by decide) (by decide)
    hlast sessionFs
  have hsearch := h (some sessionSelf) sessionFs ⟨rfl, [], by decide⟩
  have hread : FsStep sessionFs (.readFile sessionHost "cgroup.subtree_control")
      (some "memory pids".toList) sessionFs := by
    refine ⟨rfl, ?_⟩
    rintro - text ⟨⟩
    exact ⟨_, rfl, by decide⟩
  obtain ⟨-, hfound⟩ := hsearch (some "memory pids".toList) sessionFs ⟨hread, fun _ _ => rfl⟩
  exact (hfound sessionHost).mp rfl

def counterText (file : String) : Option (List Char) :=
  if file = "memory.current" then some "4096\n".toList
  else if file = "cpu.stat" then some "nr_periods 7\nusage_usec 500\n".toList
  else none

def counterKernel (s : CgroupFs) : (c : FsCall) → c.Answer × CgroupFs
  | .readFile dir file => (if dir = sessionCg.leaf 1 then counterText file else none, s)
  | c => obliging sessionSelf s c

theorem counterKernel_step (s : CgroupFs) (c : FsCall) :
    CountStep (sessionCg.leaf 1) {4096} {500} True s c (counterKernel s c).1
      (counterKernel s c).2 := by
  cases c with
  | readFile dir file =>
      change (s = s ∧ _) ∧ (dir = sessionCg.leaf 1 → _)
      unfold counterKernel
      dsimp only
      refine ⟨⟨rfl, ?_⟩, ?_⟩
      · rintro rfl text htext
        split_ifs at htext
        cases htext
      · rintro rfl
        rw [if_pos rfl]
        constructor
        · rintro rfl
          refine ⟨fun _ => rfl, ?_⟩
          rintro text ⟨⟩
          exact ⟨4096, rfl, by rw [MemoryText]; decide⟩
        · rintro rfl
          refine ⟨fun _ => rfl, ?_⟩
          rintro text ⟨⟩
          exact ⟨500, rfl, ["nr_periods 7".toList], [], by decide, by decide⟩
  | _ => exact ⟨obliging_step sessionSelf s _, trivial⟩

theorem usage_reports_session :
    ((sessionCg.usage 1).exec counterKernel sessionReady).1 = some ⟨4096, 500⟩ := by
  have hrun := exec_runs counterKernel_step (sessionCg.usage 1) sessionReady
  obtain ⟨-, hsome, hvalues⟩ := wp_iff_runs.mp (usage_reports sessionCg 1
    (by rintro n rfl; decide) (by rintro n rfl; decide) sessionReady) _ _ hrun
  obtain ⟨u, hu⟩ := Option.ne_none_iff_exists'.mp (hsome trivial)
  obtain ⟨hmem, hcpu⟩ := hvalues u hu
  obtain ⟨m, c⟩ := u
  obtain rfl : m = 4096 := hmem
  obtain rfl : c = 500 := hcpu
  exact hu

end MeshSupervisor
