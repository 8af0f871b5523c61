import KogmoRtdb.History.Refinement
import KogmoRtdb.Udp.Library

/-!
# The database behind the server

What `LocalApi` presupposes of the server's database holds of the database in every state that its
calls reach as `reflects_of_guarded` asks for. `LocalDb` is such a state, and `LocalDb.api` answers
reads and writes as it does. So a remote read is compared with `kogmo_rtdb_obj_readdata` on the
server's ring (`remote_readdata_iff`).
-/

namespace KogmoRtdb

variable {env : Env} {heapSize limit : Int} {w w' : World} {s s' : RunState} {op : Op}
  {h : Handle} {ts : Timestamp} {m m' metadata : ObjInfo}

/-! ## Even sizes -/

/-- `metadata_p->size_max++; // make size even` -/
def EvenSizes (objmeta : Nat → ObjInfo) : Prop := ∀ i, (objmeta i).sizeMax % 2 = 0

theorem EvenSizes.update {t : Nat → ObjInfo} {i : Nat} (ht : EvenSizes t)
    (hm : m.sizeMax % 2 = 0) : EvenSizes (Function.update t i m) := by
  intro j
  by_cases hji : j = i
  · rw [hji, Function.update_self]
    exact hm
  · rw [Function.update_of_ne hji]
    exact ht j

theorem keepsEffects_evenSizes : KeepsEffects env False fun w => EvenSizes w.db.objmeta where
  idle w w' hw hdb _ := by rwa [hdb]
  mark w i k proc hw _ := hw.update (hw i)
  purge w i hw _ := by
    rw [purged_objmeta]
    exact hw.update (hw i)

theorem even_initMetadata [Rounding] : (initMetadata env h ts m).sizeMax % 2 = 0 := by
  show (if m.sizeMax % 2 = 1 then wrap32 (m.sizeMax + 1) else m.sizeMax) % 2 = 0
  split
  · unfold wrap32 Int.bmod
    dsimp only
    split <;> omega
  · omega

theorem SlotSearch.sizeMax_eq [Rounding] {foundSlot : Option Nat} {newIdx : Int}
    (hs : SlotSearch env h ts m w foundSlot newIdx m' w') : m'.sizeMax = m.sizeMax := by
  cases hs <;> rfl

theorem withParent_sizeMax (m : ObjInfo) (oid : ObjId) :
    (m.withParent oid).sizeMax = m.sizeMax := by
  unfold ObjInfo.withParent
  split <;> rfl

theorem evenSizes_insert [Rounding] {r : Result × ObjInfo} (ht : EvenSizes w.db.objmeta)
    (hrun : insert env.atomic h metadata w = some (r, w')) : EvenSizes w'.db.objmeta := by
  rcases insert_table hrun with ⟨hobj, -⟩ | ⟨i, newIdx, m', w₁, -, hs, -, hcases⟩
  · rwa [hobj]
  · have heven : m'.sizeMax % 2 = 0 := by
      rw [hs.sizeMax_eq]
      exact even_initMetadata
    rcases hcases with ⟨-, -, hobj⟩ | ⟨-, -, hobj⟩ <;> rw [hobj]
    · exact ht.update heven
    · refine ht.update ?_
      dsimp only
      rwa [withParent_sizeMax]

/-- One call keeps the sizes even, -/
theorem evenSizes_step [Rounding] (ht : EvenSizes s.world.db.objmeta)
    (hs : (apiLts env heapSize).step s op = some s') : EvenSizes s'.world.db.objmeta := by
  obtain ⟨events, hrun, -⟩ := apiLts_step hs
  have hchange : ∀ h oid metadata, op = .changeinfo h oid metadata →
      KeepsChange (fun w => EvenSizes w.db.objmeta) s.world.db h oid metadata :=
    fun _ _ _ _ w i hw _ _ _ => hw.update (hw i)
  rcases op_cases_keeps keepsEffects_evenSizes hchange (fun hk => hk.elim) ht hrun with
    ⟨h, metadata, r, rfl, hins, -⟩ | ⟨h, oid, data, out, rfl, hout, hw, -⟩ | ⟨ht', -⟩
  · exact evenSizes_insert ht hins
  · rw [hw]
    rcases writedata_cases hout with ⟨e, -, hdb⟩ | ⟨i, -, -, -, -, -, hdb⟩ <;> rw [hdb]
    · exact ht
    · exact ht.update (ht i)
  · exact ht'

/-- and so does every run. -/
theorem evenSizes_of_guarded [Rounding] {G : RunState → Op → Prop}
    (h : (apiLts env heapSize).Guarded G s) : EvenSizes s.world.db.objmeta := by
  refine h.invariant (I := fun s => EvenSizes s.world.db.objmeta) ?_
    fun s op s' hs _ hstep => evenSizes_step hs hstep
  rintro s rfl i
  show ((World.initial env.atomic heapSize).db.objmeta i).sizeMax % 2 = 0
  unfold World.initial World.afterAlloc
  rw [if_neg (by decide)]
  split <;> rfl

namespace Udp

/-! ## The answers -/

/-- The answer of a function as an `int`. -/
def retCode : Result → BitVec 32
  | .ok n => BitVec.ofInt 32 n
  | .error e => BitVec.ofInt 32 (-e.code)

/-- The server's database as a request meets it, with the archive that it is, the server's process,
the clock, and the bytes of an object's metadata. -/
structure LocalDb where
  db : Db
  archive : List Archived
  handle : Handle
  now : Timestamp
  wire : ObjInfo → WireInfo
  shows : Shows db.objmeta db.heap archive
  even : EvenSizes db.objmeta
  wire_sizeMax : ∀ info, (wire info).sizeMax = info.sizeMax

namespace LocalDb

/-- The metadata that `kogmo_rtdb_obj_readinfo` finds. -/
def found (d : LocalDb) (oid : ObjId) (ts : Timestamp) : Option ObjInfo :=
  ((d.db.findmetaById oid).map d.db.objmeta).filter fun info => !info.hidden ts

/-- The record that `kogmo_rtdb_obj_readdata` returns. -/
def select [Rounding] (d : LocalDb) (oid : ObjId) (ts : Timestamp) : Except Err Commit :=
  match Archive.lookup oid d.archive with
  | none => .error .notFound
  | some o =>
      match Stored.select o d.handle .last ts with
      | .error e => .error e
      | .ok c => if tooOld o.info c.stamp d.now then .error .tooFast else .ok c

/-- The answer to a write of a record of `size` bytes. -/
def writedata [Rounding] (d : LocalDb) (oid : ObjId) (size : Nat) : Result :=
  (KogmoRtdb.writedata d.db d.handle oid (Mem.zero.write32 20 (BitVec.ofInt 32 size)) d.now).ret

theorem writedata_short [Rounding] (d : LocalDb) (oid : ObjId) {size : Nat} (hsize : size < 24) :
    (retCode (d.writedata oid size)).toInt < 0 := by
  have herror : ∃ e, d.writedata oid size = .error e := by
    rcases writedata_cases
        (rfl : KogmoRtdb.writedata d.db d.handle oid
          (Mem.zero.write32 20 (BitVec.ofInt 32 size)) d.now = _) with
      ⟨e, hret, -⟩ | ⟨i, -, -, hmin, -⟩
    · exact ⟨e, hret⟩
    · rw [Mem.read32_write32, BitVec.toInt_ofInt, Int.bmod_eq_of_le (by omega) (by omega)] at hmin
      omega
  obtain ⟨e, he⟩ := herror
  rw [he]
  cases e <;> decide

theorem found_some {d : LocalDb} {oid : ObjId} {info : ObjInfo} (h : d.found oid ts = some info) :
    ∃ i, d.db.findmetaById oid = some i ∧ info = d.db.objmeta i := by
  obtain ⟨hmap, -⟩ := Option.filter_eq_some_iff.mp h
  obtain ⟨i, hi, rfl⟩ := Option.map_eq_some_iff.mp hmap
  exact ⟨i, hi, rfl⟩

theorem sizeMax_even {d : LocalDb} {oid : ObjId} {info : ObjInfo}
    (h : d.found oid ts = some info) : info.sizeMax % 2 = 0 := by
  obtain ⟨i, -, rfl⟩ := found_some h
  exact d.even i

/-- An object with records has a ring, whose slots have room for a header. -/
theorem sizeMax_min [Rounding] {d : LocalDb} {oid : ObjId} {info : ObjInfo} {c : Commit}
    (h : d.found oid ts = some info) (hc : d.select oid ts = .ok c) : 24 ≤ info.sizeMax := by
  obtain ⟨i, hi, rfl⟩ := found_some h
  unfold select at hc
  cases hlook : Archive.lookup oid d.archive with
  | none => rw [hlook] at hc; cases hc
  | some o =>
      obtain ⟨j, hj, hshown⟩ := d.shows.find rfl hlook
      cases hi.symm.trans hj
      rw [hlook] at hc
      dsimp only at hc
      cases hsel : Stored.select o d.handle .last ts with
      | error e => rw [hsel] at hc; cases hc
      | ok c' =>
          obtain ⟨hidx, -⟩ := select_ok_iff.mp hsel
          have hidx' : (d.db.objmeta i).bufferIdx ≠ 0 := fun h0 => hidx (by
            rw [hshown.shown]
            exact shown_bufferIdx.mpr h0)
          obtain ⟨n, hring⟩ := hshown.ring hidx'
          exact hring.block.sizeMin

/-- The calls of the server to its database; those that neither read an object nor write to it are
`other`'s. -/
def api [Rounding] (d : LocalDb) (other : LocalApi) : LocalApi where
  searchinfo := other.searchinfo
  readinfo oid ts := (d.found oid.toInt ts).elim (.error .notFound) fun info => .ok (d.wire info)
  select oid ts := d.select oid.toInt ts
  writedata oid data := retCode (d.writedata oid.toInt data.length)
  insert := other.insert
  delete := other.delete
  sizeMax_even {oid ts info} h := by
    cases hfound : d.found oid.toInt ts with
    | none => rw [hfound] at h; cases h
    | some info' =>
        rw [hfound] at h
        cases h
        rw [d.wire_sizeMax]
        exact sizeMax_even hfound
  sizeMax_min {oid ts info c} h hc := by
    cases hfound : d.found oid.toInt ts with
    | none => rw [hfound] at h; cases h
    | some info' =>
        rw [hfound] at h
        cases h
        rw [d.wire_sizeMax]
        exact sizeMax_min hfound hc
  writedata_short h := d.writedata_short _ h
  delete_nonpos := other.delete_nonpos

/-- `kogmo_rtdb_obj_readinfo` finds what the server is told. -/
theorem readinfo_eq {d : LocalDb} (env : Env) {w : World} (hw : w.db = d.db) (oid : ObjId)
    (ts : Timestamp) (metadata : ObjInfo) :
    ∃ w', KogmoRtdb.readinfo env.atomic oid ts metadata w =
      some ((d.found oid ts).elim (.error .notFound, metadata) fun info => (.ok 0, info), w') := by
  have hdb : (w.lock env.atomic).db = d.db := (atomic_lock_db w).trans hw
  refine ⟨(w.lock env.atomic).unlock, Prog.bind_some.mpr ⟨_, _, rfl,
    Prog.bind_some.mpr ⟨_, _, rfl, ?_⟩⟩⟩
  rw [hdb]
  unfold found
  cases d.db.findmetaById oid with
  | none => rfl
  | some i =>
      dsimp only
      by_cases hhidden : (d.db.objmeta i).hidden ts = true
      · rw [if_pos hhidden, Option.map_some, Option.filter_some_neg (by simp [hhidden])]
        rfl
      · rw [if_neg hhidden, Option.map_some, Option.filter_some_pos (by simp [hhidden])]
        rfl

variable [Rounding] {d : LocalDb} {other : LocalApi} {oid : BitVec 32}

/-- `kogmo_rtdb_obj_readdata` answers what the server is told, and where it succeeds leaves the same
in the buffer. -/
theorem readdata_eq (hoid : oid.toInt ≠ 0) {fuel : Nat}
    (hfuel : ∀ o, Archive.lookup oid.toInt d.archive = some o → o.info.historySize.toNat ≤ fuel)
    (ts : Timestamp) (size : Int) (buf : Mem) :
    ∃ out, KogmoRtdb.readdata d.db d.handle oid.toInt ts buf size d.now fuel = some out ∧
      ((d.api other).readdata oid ts size buf).1 = out.ret ∧
      ∀ n, out.ret = .ok n → ((d.api other).readdata oid ts size buf).2 = out.buf := by
  have hreflects : Reflects d.db d.archive := d.shows.reflects
  unfold KogmoRtdb.readdata LocalApi.readdata api select
  dsimp only
  cases hlook : Archive.lookup oid.toInt d.archive with
  | none =>
      obtain ⟨hread, -⟩ := hreflects.missing _ hoid hlook d.handle
      exact ⟨_, hread .last ts buf size d.now fuel, rfl, fun _ _ => rfl⟩
  | some o =>
      refine ⟨_, hreflects.copied d.handle .last _ ts buf size d.now fuel o hlook (hfuel o hlook),
        ?_⟩
      unfold Stored.read
      dsimp only
      cases Stored.select o d.handle .last ts with
      | error e => exact ⟨rfl, fun _ _ => rfl⟩
      | ok c =>
          dsimp only
          by_cases hold : tooOld o.info c.stamp d.now = true
          · rw [if_pos hold, if_pos hold]
            exact ⟨rfl, fun n h => by cases h⟩
          · rw [if_neg hold, if_neg hold]
            exact ⟨rfl, fun _ _ => rfl⟩

/-- The answer to a write depends on the size of the record only. -/
theorem writedata_eq {m : Mem} {n : Nat} (hm : (m.read32 20).toInt = n) :
    (d.api other).writedata oid (m.bytes 0 n) =
      retCode (KogmoRtdb.writedata d.db d.handle oid.toInt m d.now).ret := by
  have hsize : (Mem.zero.write32 20 (BitVec.ofInt 32 n)).read32 20 = m.read32 20 := by
    rw [Mem.read32_write32, ← hm, BitVec.ofInt_toInt]
  show retCode (d.writedata oid.toInt (m.bytes 0 n).length) = _
  rw [Mem.length_bytes]
  unfold LocalDb.writedata KogmoRtdb.writedata
  rw [hsize]
  cases d.db.findmetaById oid.toInt with
  | none => rfl
  | some i => simp only [apply_ite WriteOut.ret]

end LocalDb

/-! ## Remote reads -/

theorem exists_localDb [Rounding] (hf : AllocSound limit env.alloc) (hlimit : limit < 2 ^ 31)
    (hrun : (apiLts env heapSize).Guarded (ArchiveGuard env) s) (h : Handle) (now : Timestamp)
    {wire : ObjInfo → WireInfo} (hwire : ∀ info, (wire info).sizeMax = info.sizeMax) :
    ∃ d : LocalDb, d.db = s.world.db ∧ d.handle = h ∧ d.now = now ∧ d.wire = wire ∧
      Tells s.log d.archive := by
  obtain ⟨s₀, hinit, hstart⟩ := hrun.exists_start
  obtain ⟨cs, -, ha⟩ := exists_follows hf hlimit (archives_initial hf hinit) hstart
  exact ⟨⟨s.world.db, cs, h, now, wire, ha.shows, evenSizes_of_guarded hrun, hwire⟩,
    rfl, rfl, rfl, rfl, ha.tells⟩

/-- A remote read comes to the same as `kogmo_rtdb_obj_readdata` on the server's ring exactly under
its condition. -/
theorem remote_readdata_iff [Rounding] {d : LocalDb} {other : LocalApi} {link : Link}
    {oid : BitVec 32} {fuel : Nat} (hapi : link.api = d.api other) (hpos : 0 < oid.toInt)
    (hfuel : ∀ o, Archive.lookup oid.toInt d.archive = some o → o.info.historySize.toNat ≤ fuel)
    (ts : Timestamp) (buf : Mem) (size : Nat) :
    ∃ out, KogmoRtdb.readdata d.db d.handle oid.toInt ts buf size d.now fuel = some out ∧
      ((match out.ret with
        | .error _ => (link.readdata oid ts buf size).1 < 0
        | .ok n => link.readdata oid ts buf size = (n, out.buf)) ↔
        Carried link (.readdata oid ts buf size)) := by
  obtain ⟨out, hread, hret, hbuf⟩ :=
    @LocalDb.readdata_eq _ d other oid (by omega) fuel hfuel ts size buf
  refine ⟨out, hread, ?_⟩
  rw [← readdata_agrees_iff hpos]
  unfold Agrees
  dsimp only
  rw [hapi]
  revert hret hbuf
  rcases (d.api other).readdata oid ts size buf with ⟨ret, buf'⟩
  rintro rfl hbuf
  cases hout : out.ret with
  | error e => rfl
  | ok n =>
      have heq : buf' = out.buf := hbuf n hout
      rw [heq]

end Udp

end KogmoRtdb
