import MeshSupervisor.Lib.Table
import MeshSupervisor.Proto

/-! # The persistent store

The redb store of `store.rs`: the `records` table holds the encoded `Record` of each
handle, the `meta` table the handle counter (`KEY_NEXT`) and the node's secret key
(`KEY_SECRET`).  Every operation is one transaction, atomic and durable; records are kept
as bytes, so that `load` and `setStatus` decode what an earlier `put` encoded, over an
arbitrary codec.

`record?` is the store read through the codec; the lemmas `record?_put`, `record?_remove`
and `record?_setStatus` say what each transaction does to it, and `load_ok` what `load`
returns.  Later modules use only these. -/

namespace MeshSupervisor

open Wire (Bytes Codec)

/-- Durable description of a spawned process. -/
structure Record where
  cmd : String
  args : List String
  env : List (String × String)
  pid : Pid
  status : ProcState
deriving DecidableEq, Repr

structure SecretKey where
  bytes : Bytes
  length_eq : bytes.length = 32
deriving DecidableEq

/-- The store file: the two tables. -/
structure Store where
  records : Table Handle Bytes
  /-- `KEY_NEXT`. -/
  nextHandle : Option Handle
  /-- `KEY_SECRET`. -/
  secret : Option Bytes

/-- Reloaded state: the records, ascending by handle, and the last handle handed out. -/
structure Loaded where
  records : List (Σ _ : Handle, Record)
  nextHandle : Handle

namespace Store

/-- Open the store file, creating it with empty tables when it does not exist. -/
def openFile : Option Store → Store
  | some st => st
  | none => ⟨∅, none, none⟩

/-- The node's secret key, `generated` being persisted on the first run. -/
def secretKey (st : Store) (generated : SecretKey) : Except String (SecretKey × Store) :=
  match st.secret with
  | some bytes =>
      if h : bytes.length = 32 then .ok (⟨bytes, h⟩, st)
      else .error "stored secret key has wrong length"
  | none => .ok (generated, { st with secret := some generated.bytes })

variable [Codec Record]

def decodeRecords : List (Σ _ : Handle, Bytes) → Except String (List (Σ _ : Handle, Record))
  | [] => .ok []
  | ⟨h, bytes⟩ :: l =>
      match Codec.decode bytes with
      | none => .error "decode record"
      | some r =>
          match decodeRecords l with
          | .error e => .error e
          | .ok rs => .ok (⟨h, r⟩ :: rs)

/-- All persisted records and the next-handle counter, which is lifted to the highest key
on disk. -/
def load (st : Store) : Except String Loaded :=
  match decodeRecords st.records.entries with
  | .error e => .error e
  | .ok rs =>
      let records := Table.sortKeys (· ≤ ·) rs
      let maxKey := (records.map Sigma.fst).max?.getD 0
      .ok ⟨records, max (st.nextHandle.getD 0) maxKey⟩

/-- Persist a record and set the handle counter to its handle. -/
def put (st : Store) (handle : Handle) (r : Record) : Store :=
  { st with
    records := AList.insert handle (Codec.encode r) st.records
    nextHandle := some handle }

/-- Delete a record. -/
def remove (st : Store) (handle : Handle) : Store :=
  { st with records := AList.erase handle st.records }

/-- Update an existing record's status; a no-op if the record is gone. -/
def setStatus (st : Store) (handle : Handle) (status : ProcState) : Except String Store :=
  match st.records.lookup handle with
  | none => .ok st
  | some bytes =>
      match Codec.decode (α := Record) bytes with
      | none => .error "decode record"
      | some r =>
          .ok { st with
            records := AList.insert handle (Codec.encode { r with status := status }) st.records }

/-! ### The store through the codec -/

def record? (st : Store) (h : Handle) : Option Record := (st.records.lookup h).bind Codec.decode

/-- Every record of the store decodes. -/
def Readable (st : Store) : Prop :=
  ∀ h bytes, st.records.lookup h = some bytes → ∃ r : Record, Codec.decode bytes = some r

theorem record?_put (st : Store) (h k : Handle) (r : Record) :
    (st.put h r).record? k = if k = h then some r else st.record? k := by
  simp only [record?, put, Table.lookup_insert_if]
  split_ifs <;> simp

theorem record?_remove (st : Store) (h k : Handle) :
    (st.remove h).record? k = if k = h then none else st.record? k := by
  simp only [record?, remove, Table.lookup_erase_if]
  split_ifs <;> simp

theorem setStatus_cases {st st' : Store} {h : Handle} {s : ProcState}
    (hs : st.setStatus h s = .ok st') :
    (st.records.lookup h = none ∧ st' = st) ∨
      ∃ bytes, ∃ r : Record, st.records.lookup h = some bytes ∧ Codec.decode bytes = some r ∧
        st' = { st with
          records := AList.insert h (Codec.encode { r with status := s }) st.records } := by
  unfold setStatus at hs
  cases hl : st.records.lookup h with
  | none =>
      rw [hl] at hs
      exact .inl ⟨rfl, (Except.ok.inj hs).symm⟩
  | some bytes =>
      rw [hl] at hs
      dsimp only at hs
      cases hd : (Codec.decode bytes : Option Record) with
      | none =>
          rw [hd] at hs
          cases hs
      | some r =>
          rw [hd] at hs
          exact .inr ⟨bytes, r, rfl, hd, (Except.ok.inj hs).symm⟩

theorem record?_setStatus {st st' : Store} {h : Handle} {s : ProcState}
    (hs : st.setStatus h s = .ok st') (k : Handle) :
    st'.record? k =
      if k = h then (st.record? h).map (fun r => { r with status := s }) else st.record? k := by
  rcases setStatus_cases hs with ⟨hl, rfl⟩ | ⟨bytes, r, hl, hd, rfl⟩
  · by_cases hk : k = h
    · subst hk
      simp [record?, hl]
    · simp [hk]
  · simp only [record?, Table.lookup_insert_if, hl]
    split_ifs <;> simp [hd]

theorem mem_put {st : Store} {h k : Handle} {r : Record} :
    k ∈ (st.put h r).records ↔ k = h ∨ k ∈ st.records := AList.mem_insert _

omit [Codec Record] in
theorem mem_remove {st : Store} {h k : Handle} :
    k ∈ (st.remove h).records ↔ k ≠ h ∧ k ∈ st.records := AList.mem_erase

/-- A status update changes neither the keys nor the two meta values. -/
theorem setStatus_frame {st st' : Store} {h : Handle} {s : ProcState}
    (hs : st.setStatus h s = .ok st') :
    (∀ k, k ∈ st'.records ↔ k ∈ st.records) ∧ st'.nextHandle = st.nextHandle ∧
      st'.secret = st.secret := by
  rcases setStatus_cases hs with ⟨-, rfl⟩ | ⟨bytes, r, hl, -, rfl⟩
  · simp
  · have hmem : h ∈ st.records := AList.lookup_isSome.mp (by rw [hl]; rfl)
    refine ⟨fun k => ?_, rfl, rfl⟩
    rw [AList.mem_insert]
    constructor
    · rintro (rfl | hk)
      · exact hmem
      · exact hk
    · exact Or.inr

theorem setStatus_ok {st : Store} (hr : st.Readable) (h : Handle) (s : ProcState) :
    ∃ st', st.setStatus h s = .ok st' := by
  unfold setStatus
  cases hl : st.records.lookup h with
  | none => exact ⟨st, rfl⟩
  | some bytes =>
      obtain ⟨r, hd⟩ := hr h bytes hl
      simp only [hd]
      exact ⟨_, rfl⟩

/-! ### Readability is kept -/

theorem mem_iff_record? {st : Store} (hr : st.Readable) {h : Handle} :
    h ∈ st.records ↔ (st.record? h).isSome := by
  rw [← AList.lookup_isSome, record?]
  cases hl : st.records.lookup h with
  | none => simp
  | some bytes =>
      obtain ⟨r, hd⟩ := hr h bytes hl
      simp [hd]

theorem Readable.put {st : Store} (hr : st.Readable) (h : Handle) (r : Record) :
    (st.put h r).Readable := by
  intro k bytes hk
  simp only [Store.put, Table.lookup_insert_if] at hk
  split_ifs at hk
  · obtain rfl := Option.some.inj hk
    exact ⟨r, Codec.decode_encode r⟩
  · exact hr k bytes hk

theorem Readable.remove {st : Store} (hr : st.Readable) (h : Handle) : (st.remove h).Readable := by
  intro k bytes hk
  simp only [Store.remove, Table.lookup_erase_if] at hk
  split_ifs at hk
  exact hr k bytes hk

theorem Readable.setStatus {st st' : Store} (hr : st.Readable) {h : Handle} {s : ProcState}
    (hs : st.setStatus h s = .ok st') : st'.Readable := by
  rcases Store.setStatus_cases hs with ⟨-, rfl⟩ | ⟨bytes, r, -, -, rfl⟩
  · exact hr
  · intro k bytes' hk
    simp only [Table.lookup_insert_if] at hk
    split_ifs at hk
    · obtain rfl := Option.some.inj hk
      exact ⟨_, Codec.decode_encode _⟩
    · exact hr k bytes' hk

/-! ### What `load` returns -/

theorem decodeRecords_ok {l : List (Σ _ : Handle, Bytes)} {rs : List (Σ _ : Handle, Record)}
    (h : decodeRecords l = .ok rs) : rs.keys = l.keys ∧
      (∀ k, rs.dlookup k = (l.dlookup k).bind Codec.decode) ∧
      ∀ k bytes, ⟨k, bytes⟩ ∈ l → ∃ r : Record, Codec.decode bytes = some r := by
  induction l generalizing rs with
  | nil =>
      obtain rfl := Except.ok.inj h
      simp
  | cons x l ih =>
      obtain ⟨k₀, bytes₀⟩ := x
      simp only [decodeRecords] at h
      cases hd : (Codec.decode bytes₀ : Option Record) with
      | none => rw [hd] at h; cases h
      | some r =>
          rw [hd] at h
          dsimp only at h
          cases hl : decodeRecords l with
          | error e => rw [hl] at h; cases h
          | ok rs' =>
              rw [hl] at h
              obtain rfl := Except.ok.inj h
              obtain ⟨hkeys, hlook, hdec⟩ := ih hl
              refine ⟨by simp [List.keys_cons, hkeys], ?_, ?_⟩
              · intro k
                by_cases hk : k = k₀
                · subst hk; simp [hd]
                · rw [List.dlookup_cons_ne (β := fun _ => Record) rs' ⟨k₀, r⟩ hk,
                    List.dlookup_cons_ne (β := fun _ => Bytes) l ⟨k₀, bytes₀⟩ hk]
                  exact hlook k
              · intro k bytes hmem
                rcases List.mem_cons.mp hmem with heq | hmem
                · obtain ⟨rfl, hb⟩ := Sigma.mk.inj heq
                  obtain rfl := eq_of_heq hb
                  exact ⟨r, hd⟩
                · exact hdec k bytes hmem

theorem decodeRecords_total {l : List (Σ _ : Handle, Bytes)}
    (h : ∀ k bytes, ⟨k, bytes⟩ ∈ l → ∃ r : Record, Codec.decode bytes = some r) :
    ∃ rs, decodeRecords l = .ok rs := by
  induction l with
  | nil => exact ⟨[], rfl⟩
  | cons x l ih =>
      obtain ⟨k, bytes⟩ := x
      obtain ⟨r, hd⟩ := h k bytes List.mem_cons_self
      obtain ⟨rs, hl⟩ := ih (fun k bytes hm => h k bytes (List.mem_cons_of_mem _ hm))
      exact ⟨⟨k, r⟩ :: rs, by simp [decodeRecords, hd, hl]⟩

/-- What a successful `load` says about the store it read. -/
structure LoadSpec (st : Store) (loaded : Loaded) : Prop where
  readable : st.Readable
  records : ∀ h, loaded.records.dlookup h = st.record? h
  stored_le : st.nextHandle.getD 0 ≤ loaded.nextHandle
  key_le : ∀ h ∈ st.records, h ≤ loaded.nextHandle
  /-- The counter is no higher than the stored one and the keys make it. -/
  least : ∀ b, st.nextHandle.getD 0 ≤ b → (∀ h ∈ st.records, h ≤ b) → loaded.nextHandle ≤ b

theorem load_ok {st : Store} {loaded : Loaded} (h : st.load = .ok loaded) :
    LoadSpec st loaded := by
  unfold load at h
  cases hd : decodeRecords st.records.entries with
  | error e => rw [hd] at h; cases h
  | ok rs =>
      rw [hd] at h
      obtain rfl := Except.ok.inj h
      obtain ⟨hkeys, hlook, hdec⟩ := decodeRecords_ok hd
      have hnd : rs.NodupKeys := by
        rw [List.NodupKeys, hkeys]; exact st.records.nodupKeys
      have hmem : ∀ k, k ∈ (Table.sortKeys (· ≤ ·) rs).map Sigma.fst ↔ k ∈ st.records := by
        intro k
        have hp := ((Table.sortKeys_perm (· ≤ ·) rs).map Sigma.fst).mem_iff (a := k)
        rw [hp, AList.mem_keys]
        show k ∈ rs.keys ↔ k ∈ st.records.entries.keys
        rw [hkeys]
      refine ⟨?_, ?_, le_max_left _ _, ?_, ?_⟩
      · intro k bytes hk
        exact hdec k bytes (AList.mem_lookup_iff.mp hk)
      · intro k
        rw [Table.dlookup_sortKeys _ hnd, hlook]
        rfl
      · intro k hk
        exact le_trans (List.le_max?_getD_of_mem ((hmem k).mpr hk)) (le_max_right _ _)
      · intro b h1 h2
        refine max_le h1 ?_
        cases hmax : ((Table.sortKeys (· ≤ ·) rs).map Sigma.fst).max? with
        | none => exact Nat.zero_le b
        | some n => exact h2 n ((hmem n).mp (List.max?_mem hmax))

theorem load_total {st : Store} (hr : st.Readable) : ∃ loaded, st.load = .ok loaded := by
  obtain ⟨rs, hd⟩ := decodeRecords_total (l := st.records.entries)
    (fun k bytes hm => hr k bytes (AList.mem_lookup_iff.mpr hm))
  exact ⟨_, by simp only [load, hd]; rfl⟩

end Store

/-! ### The wire format of a record -/

/-- `ProcState` on the wire: the variant's index, then its payload. -/
def procStateFormat : Wire.Format ProcState where
  write
    | .running => [0]
    | .exited code => 1 :: Wire.Format.int.option.write code
    | .stale => [2]
  read
    | 0 :: bs => some (.running, bs)
    | 1 :: bs => (Wire.Format.int.option.read bs).map (fun p => (.exited p.1, p.2))
    | 2 :: bs => some (.stale, bs)
    | _ => none
  read_write s rest := by
    cases s with
    | running => rfl
    | exited code =>
        simp only [List.cons_append, Wire.Format.int.option.read_write, Option.map_some]
    | stale => rfl

def recordFormat : Wire.Format Record :=
  open Wire.Format in
  (string.pair (string.list.pair ((string.pair string).list.pair (nat.pair procStateFormat)))).retract
    (fun r => (r.cmd, r.args, r.env, r.pid, r.status))
    (fun (cmd, args, env, pid, status) => some ⟨cmd, args, env, pid, status⟩)
    (fun _ => rfl)

@[reducible] def recordCodec : Codec Record := recordFormat.codec

end MeshSupervisor
