import KogmoRtdb.History.Refinement

/-!
# Reads that can be repeated

History is not rewritten: a read that has found a record finds it again after any further calls,
as long as the object is there, the search goes past the records committed meanwhile, and the
record has not dropped out of the ring. This is a fact of archives (`Archive.newest_append`,
`Archive.oldest_append`), which the database refines.
-/

namespace KogmoRtdb

/-- The metadata that no call changes while the object is there. -/
structure SameStore (info info' : ObjInfo) : Prop where
  createdProc : info'.createdProc = info.createdProc
  flags : info'.flags = info.flags
  historySize : info'.historySize = info.historySize
  bufferIdx : info'.bufferIdx = info.bufferIdx

variable {env : Env} {limit heapSize : Int} {h : Handle} {w : World} {s s' s₀ : RunState} {op : Op}
  {cs cs' cs₀ news : List Archived} {oid : ObjId} {i : Nat} {o o' : Stored} {imm : ObjId → Prop}
  {events : List ApiEvent} {mode : Mode} {ts : Timestamp} {c : Commit} {rs : List Commit} {n : Nat}

/-! ## What calls add to the archive -/

theorem SameStore.refl (info : ObjInfo) : SameStore info info := ⟨rfl, rfl, rfl, rfl⟩

theorem SameStore.trans {info info' info'' : ObjInfo} (h : SameStore info info')
    (h' : SameStore info' info'') : SameStore info info'' where
  createdProc := h'.createdProc.trans h.createdProc
  flags := h'.flags.trans h.flags
  historySize := h'.historySize.trans h.historySize
  bufferIdx := h'.bufferIdx.trans h.bufferIdx

/-- An object that the change enters has been inserted, and what it alters is none of an object's
store. -/
def Addition (events : List ApiEvent) : Archived → Prop
  | .enter oid _ => .inserted oid ∈ events
  | .alter _ f => ∀ info, SameStore info (f info)
  | .add _ _ | .drop _ => True

def Grows (events : List ApiEvent) (cs cs' : List Archived) : Prop :=
  ∃ news, cs' = news ++ cs ∧ ∀ c ∈ news, Addition events c

theorem Grows.refl (events : List ApiEvent) (cs : List Archived) : Grows events cs cs :=
  ⟨[], rfl, fun _ hc => absurd hc List.not_mem_nil⟩

theorem Grows.cons {c : Archived} (hg : Grows events cs cs') (hc : Addition events c) :
    Grows events cs (c :: cs') := by
  obtain ⟨news, rfl, hnews⟩ := hg
  exact ⟨c :: news, rfl, List.forall_mem_cons.mpr ⟨hc, hnews⟩⟩

theorem Addition.mono {events' : List ApiEvent} {c : Archived} (hc : Addition events c)
    (hsub : ∀ e ∈ events, e ∈ events') : Addition events' c := by
  cases c with
  | enter oid info => exact hsub _ hc
  | alter oid f => exact hc
  | add _ _ | drop _ => trivial

theorem Clears.grows (hc : Clears env imm cs cs') : Grows [] cs cs' := by
  induction hc with
  | refl => exact .refl [] cs
  | mark _ _ _ ih => exact ih.cons fun _ => ⟨rfl, rfl, rfl, rfl⟩
  | remove _ _ _ ih => exact ih.cons trivial

theorem Reuses.grows (hr : Reuses h cs cs') : Grows events cs cs' := by
  cases hr with
  | none => exact .refl events cs
  | drop => exact (Grows.refl events cs).cons trivial

theorem Makes.grows [Rounding] (hm : Makes env w cs op events cs') : Grows events cs cs' := by
  cases hm with
  | nothing => exact .refl [] cs
  | enter hreuse => exact hreuse.grows.cons List.mem_cons_self
  | noOid hreuse => exact hreuse.grows
  | add => exact (Grows.refl _ cs).cons trivial
  | delete hclears => exact hclears.grows
  | @purge oids hdue =>
      refine ⟨oids.map .drop, rfl, fun c hc => ?_⟩
      obtain ⟨oid, -, rfl⟩ := List.mem_map.mp hc
      trivial
  | change => exact (Grows.refl [] cs).cons fun _ => ⟨rfl, rfl, rfl, rfl⟩

/-- A run adds to the log, and such changes to the archive. -/
theorem Follows.grows [Rounding] (hf : Follows env heapSize s₀ cs₀ s cs) :
    ∃ events, s.log = events ++ s₀.log ∧ Grows events cs₀ cs := by
  induction hf with
  | refl => exact ⟨[], rfl, .refl [] cs₀⟩
  | @step s s' op events cs cs' _ _ hlog hm ih =>
      obtain ⟨events₀, hlog₀, news₀, rfl, hnews₀⟩ := ih
      obtain ⟨news, rfl, hnews⟩ := hm.grows
      refine ⟨events ++ events₀, by rw [hlog, hlog₀, List.append_assoc], news ++ news₀,
        (List.append_assoc ..).symm, fun c hc => ?_⟩
      rcases List.mem_append.mp hc with hc | hc
      · exact (hnews c hc).mono fun e he => List.mem_append_left _ he
      · exact (hnews₀ c hc).mono fun e he => List.mem_append_right _ he

/-! ## What is read again -/

theorem mem_of_pick (hpick : mode.pick ts n rs = some c) : c ∈ rs.take n := by
  unfold Mode.pick Archive.oldest Archive.newest at hpick
  split at hpick
  · exact (List.takeWhile_sublist _).subset (List.mem_of_getLast? hpick)
  · exact List.mem_of_find?_eq_some hpick

theorem exists_of_forall₂ {α β : Type} {R : α → β → Prop} {l : List α} {l' : List β} {a : α}
    (hall : l.Forall₂ R l') (ha : a ∈ l) : ∃ b ∈ l', R a b := by
  induction hall with
  | nil => cases ha
  | cons hr _ ih =>
      rcases List.mem_cons.mp ha with rfl | ha
      · exact ⟨_, List.mem_cons_self, hr⟩
      · obtain ⟨b, hb, hr⟩ := ih ha
        exact ⟨b, List.mem_cons_of_mem _ hb, hr⟩

/-- The record picked is picked again from a longer history, if the search goes past the newer
records and it is still among the last `n`. -/
theorem pick_append {newer : List Commit}
    (hsorted : (newer ++ rs).Pairwise fun d d' => d'.stamp.toInt < d.stamp.toInt)
    (hpassed : ∀ d ∈ newer, mode.wanted ts d = mode.keepsNewer)
    (hfew : (newer ++ rs).countP (fun d => decide (c.stamp.toInt < d.stamp.toInt)) < n)
    (hpick : mode.pick ts n rs = some c) : mode.pick ts n (newer ++ rs) = some c := by
  obtain ⟨-, hrs, hlater⟩ := List.pairwise_append.mp hsorted
  have hmem : c ∈ rs := List.mem_of_mem_take (mem_of_pick hpick)
  have hplace : c ∈ rs.take (n - newer.length) := by
    have hin := Archive.mem_take_of_countP hsorted (List.mem_append_right newer hmem) hfew
    rw [List.take_append] at hin
    rcases List.mem_append.mp hin with hnew | hin
    · have := hlater c (List.mem_of_mem_take hnew) c hmem
      omega
    · exact hin
  have hlen : newer.length ≤ n := by
    by_contra hlt
    rw [show n - newer.length = 0 by omega] at hplace
    cases hplace
  have hnodup : (rs.take n).Nodup := (hrs.sublist (List.take_sublist n rs)).imp fun hlt heq => by
    rw [heq] at hlt
    omega
  unfold Mode.pick at hpick ⊢
  cases hk : mode.keepsNewer with
  | false =>
      rw [hk] at hpick hpassed
      rw [if_neg Bool.false_ne_true] at hpick ⊢
      rw [Archive.newest_append hpassed]
      exact Archive.newest_of_mem (Nat.sub_le n _) hpick hplace
  | true =>
      rw [hk] at hpick hpassed
      rw [if_pos rfl] at hpick ⊢
      rw [Archive.oldest_append hpassed hlen,
        Archive.oldest_of_mem (Nat.sub_le n _) hnodup hpick hplace]
      rfl

theorem writings_append {log : List ApiEvent} (hsame : .inserted oid ∉ events) :
    writings oid (events ++ log) = writings oid events ++ writings oid log := by
  induction events with
  | nil => rfl
  | cons e es ih =>
      have ih := ih fun hmem => hsame (List.mem_cons_of_mem e hmem)
      rw [List.cons_append]
      cases e with
      | inserted oid' =>
          have hne : oid' ≠ oid := fun heq => hsame (heq ▸ List.mem_cons_self)
          rw [writings, writings, if_neg hne, if_neg hne, ih]
      | committed oid' proc data stamp =>
          rw [writings, writings, ih]
          by_cases heq : oid' = oid
          · rw [if_pos heq, if_pos heq, List.cons_append]
          · rw [if_neg heq, if_neg heq]

/-- What the archive has of an object that stays: the same store, and the records committed
since on top. -/
structure Continued (events : List ApiEvent) (oid : ObjId) (o o' : Stored)
    (newer : List Commit) : Prop where
  store : SameStore o.info o'.info
  records : o'.records = newer ++ o.records
  written : newer.Forall₂ (fun c e => IsCommitOf c e.proc e.data e.stamp) (writings oid events)

theorem exists_continued (hs : Tells s.log cs) (hs' : Tells s'.log cs')
    (hlog : s'.log = events ++ s.log) (hgrows : Grows events cs cs')
    (hsame : .inserted oid ∉ events) (hlook : Archive.lookup oid cs = some o)
    (hlook' : Archive.lookup oid cs' = some o') :
    ∃ newer, Continued events oid o o' newer := by
  obtain ⟨news, rfl, hnews⟩ := hgrows
  have hkeeps : Archive.Keeps oid news :=
    Archive.keeps_of_lookup (fun info hmem => hsame (hnews _ hmem)) hlook'
  have hrecords := Archive.records_append hkeeps hlook hlook'
  refine ⟨Archive.added oid news, ?_, hrecords, ?_⟩
  · exact Archive.info_of_keeps SameStore.refl (fun _ _ _ => SameStore.trans)
      (fun _ _ hmem => hnews _ hmem) hkeeps hlook hlook'
  · have hold := (hs oid o hlook).length_eq
    have hall := hs' oid o' hlook'
    rw [hrecords, hlog, writings_append hsame] at hall
    have hlen : (Archive.added oid news).length = (writings oid events).length := by
      have hnew := hall.length_eq
      rw [List.length_append, List.length_append] at hnew
      omega
    have htake := List.forall₂_take_append _ _ _ hall
    rwa [List.take_left' hlen] at htake

/-- The record with `stamp` that a search for `ts` has found can still be found: the object in
slot `i` is the one it was, what was committed to it in the meantime does not concern the search,
and fewer records than it has places are newer. -/
structure StillFound (s : RunState) (events : List ApiEvent) (mode : Mode) (oid : ObjId)
    (ts stamp : Timestamp) (i : Nat) : Prop where
  found : s.world.db.findmetaById oid = some i
  same : .inserted oid ∉ events
  passed : ∀ e ∈ writings oid events, ∀ c, IsCommitOf c e.proc e.data e.stamp →
    mode.wanted ts c = mode.keepsNewer
  kept : (writings oid s.log).countP (fun e => decide (stamp.toInt < e.stamp.toInt)) <
    (s.world.db.objmeta i).historySize.toNat
  live : mode = .last → ts = invalidTs → (s.world.db.objmeta i).deletedTs = invalidTs

theorem ShownBy.sorted {heap : Heap} {info : ObjInfo} (hs : ShownBy heap info o) :
    o.records.Pairwise fun d d' => d'.stamp.toInt < d.stamp.toInt := by
  by_cases hidx : info.bufferIdx = 0
  · rw [hs.dataless hidx]
    exact .nil
  · obtain ⟨n, hr⟩ := hs.ring hidx
    exact hr.sorted

/-- The newer records are counted in the archive and in the log. -/
theorem countP_records (ht : Tells s.log cs) (hlook : Archive.lookup oid cs = some o)
    (stamp : Timestamp) :
    o.records.countP (fun d => decide (stamp.toInt < d.stamp.toInt)) =
      (writings oid s.log).countP fun e => decide (stamp.toInt < e.stamp.toInt) := by
  have hstamps := congrArg (List.countP fun t : Timestamp => decide (stamp.toInt < t.toInt))
    (ht.stamps hlook)
  rwa [List.countP_map, List.countP_map] at hstamps

theorem select_again {p : Handle} {newer : List Commit} (ht : Tells s'.log cs')
    (hlook : Archive.lookup oid cs' = some o')
    (hshown : ShownBy s'.world.db.heap (s'.world.db.objmeta i) o')
    (hc : Continued events oid o o' newer) (hsel : Stored.select o p mode ts = .ok c)
    (hstill : StillFound s' events mode oid ts c.stamp i) :
    Stored.select o' p mode ts = .ok c := by
  have hdel : o'.info.deletedTs = (s'.world.db.objmeta i).deletedTs := by rw [hshown.shown]; rfl
  have hsize : o'.info.historySize = (s'.world.db.objmeta i).historySize := by
    rw [hshown.shown]
    rfl
  obtain ⟨hidx, hden, -, hpick⟩ := select_ok_iff.mp hsel
  refine select_ok_iff.mpr ⟨?_, ?_, ?_, ?_⟩
  · rwa [hc.store.bufferIdx]
  · rwa [ObjInfo.readDenied, hc.store.flags, hc.store.createdProc]
  · rintro ⟨hm, hts, hdeleted⟩
    exact hdeleted (hdel.trans (hstill.live hm hts))
  · have hfew := hstill.kept
    have hsorted := hshown.sorted
    rw [← hsize, ← countP_records ht hlook, hc.store.historySize, hc.records] at hfew
    rw [hc.records] at hsorted
    rw [hc.records, hc.store.historySize]
    refine pick_append hsorted (fun d hd => ?_) hfew hpick
    obtain ⟨e, he, hof⟩ := exists_of_forall₂ hc.written hd
    exact hstill.passed e he d hof

theorem read_ok [Rounding] {p : Handle} {buf : Mem} {size m : Int} {now : Timestamp}
    (hret : (Stored.read o p mode ts buf size now).ret = .ok m) :
    ∃ c, Stored.select o p mode ts = .ok c ∧
      Stored.read o p mode ts buf size now = { ret := .ok c.size, buf := c.deliver size buf } := by
  unfold Stored.read at hret ⊢
  cases hsel : Stored.select o p mode ts with
  | error e =>
      rw [hsel] at hret
      cases hret
  | ok c =>
      rw [hsel] at hret
      refine ⟨c, rfl, ?_⟩
      dsimp only at hret ⊢
      split at hret
      · cases hret
      · rename_i hold
        rw [if_neg hold]

theorem deliver_read64 (c : Commit) (size : Int) (buf : Mem) :
    (c.deliver size buf).read64 0 = c.stamp := Mem.read64_write64 ..

/-- History is not rewritten. Whatever calls are made after a read has found a record: as long as
the object is there, what is committed to it in the meantime does not concern the search, fewer
records than there are places for are newer, and the record is not withheld as too old, the same
read answers the same. -/
theorem readdataMode_again [Rounding] {p : Handle} {buf : Mem} {size m : Int} {now now' : Timestamp}
    {fuel : Nat} {out : ReadOut} (hf : AllocSound limit env.alloc) (hlimit : limit < 2 ^ 31)
    (hs : (apiLts env heapSize).Guarded (ArchiveGuard env) s)
    (hs' : ((apiLts env heapSize).startingAt s).Guarded (ArchiveGuard env) s')
    (hlog : s'.log = events ++ s.log) (hoid : oid ≠ 0)
    (hread : readdataMode s.world.db p mode oid ts buf size now fuel = some out)
    (hret : out.ret = .ok m) (hfuel : (s'.world.db.objmeta i).historySize.toNat ≤ fuel)
    (hstill : StillFound s' events mode oid ts (out.buf.read64 0) i)
    (hfresh : tooOld (s'.world.db.objmeta i) (out.buf.read64 0) now' = false) :
    readdataMode s'.world.db p mode oid ts buf size now' fuel = some out := by
  obtain ⟨s₀, hinit, hrun⟩ := hs.exists_start
  obtain ⟨cs, -, ha⟩ := exists_follows hf hlimit (archives_initial hf hinit) hrun
  obtain ⟨cs', hfollows, ha'⟩ := exists_follows hf hlimit ha hs'
  obtain ⟨events', hlog', hgrows⟩ := hfollows.grows
  obtain rfl : events' = events := List.append_cancel_right (hlog'.symm.trans hlog)
  have hreflects := ha.shows.reflects
  cases hlook : Archive.lookup oid cs with
  | none =>
      rw [(hreflects.missing oid hoid hlook p).1] at hread
      cases hread
      cases hret
  | some o =>
      obtain ⟨-, hioid⟩ := Db.findmetaById_some hstill.found
      obtain ⟨o', hlook', hshown⟩ := ha'.shows.stored i (by rwa [hioid])
      rw [hioid] at hlook'
      obtain ⟨newer, hc⟩ :=
        exists_continued ha.tells ha'.tells hlog hgrows hstill.same hlook hlook'
      have hsize : o'.info.historySize = (s'.world.db.objmeta i).historySize := by
        rw [hshown.shown]
        rfl
      rw [← hsize] at hfuel
      rw [hreflects.copied p mode oid ts buf size now fuel o hlook
        (by rw [← hc.store.historySize]; exact hfuel)] at hread
      cases hread
      obtain ⟨c, hsel, hout⟩ := read_ok hret
      rw [hout, deliver_read64] at hstill hfresh
      have hold : tooOld o'.info c.stamp now' = false := by
        rw [hshown.shown]
        exact hfresh
      rw [ha'.shows.reflects.copied p mode oid ts buf size now' fuel o' hlook' hfuel, hout,
        Stored.read, select_again ha'.tells hlook' hshown hc hsel hstill]
      dsimp only
      rw [if_neg (by rw [hold]; exact Bool.false_ne_true)]

/-- A read of the example's object at a time in the past. -/
def pastRead [Rounding] (s : RunState) : Option ReadOut :=
  readdataMode s.world.db aProcess .older 1 14000000001 .zero 64 0 2

def afterWrite [Rounding] (s : RunState) : WriteOut :=
  writedata s.world.db aProcess 1 aRecord ((exampleEnv 4096).now s.world.tick)

def writtenState [Rounding] (s : RunState) : RunState where
  world := { s.world.ask with db := (afterWrite s).db }
  log := writeEvents aProcess 1 aRecord ((afterWrite s).data.read64 0) (afterWrite s).ret ++ s.log

/-- What the next write must meet for the read's answer to stay. -/
def WriteKeeps [Rounding] (s : RunState) (out : ReadOut) : Prop :=
  out.ret = .ok 32 ∧ ArchiveGuard (exampleEnv 4096) s (.writedata aProcess 1 aRecord) ∧
    (afterWrite s).ret = .ok 0 ∧ (afterWrite s).data.read64 0 = 15000000000 ∧
    (writtenState s).world.db.findmetaById 1 = some 0 ∧
    ((writtenState s).world.db.objmeta 0).historySize = 2 ∧
    (writings 1 (writtenState s).log).countP
      (fun e => decide ((out.buf.read64 0).toInt < e.stamp.toInt)) < 2 ∧
    tooOld ((writtenState s).world.db.objmeta 0) (out.buf.read64 0) 0 = false ∧
    (writtenState s).log.length = 4

instance [Rounding] (s : RunState) (out : ReadOut) : Decidable (WriteKeeps s out) :=
  inferInstanceAs (Decidable (_ ∧ _))

/-- After two writes the second one is read, and after a third one again. -/
theorem readdataMode_again_written :
    ∃ s out, (apiLts (exampleEnv 4096) 4096).Guarded (ArchiveGuard (exampleEnv 4096)) s ∧
      pastRead s = some out ∧ out.ret = .ok 32 ∧ (writtenState s).log.length = 4 ∧
      pastRead (writtenState s) = some out := by
  obtain ⟨s, hr, hp⟩ := (apiLts (exampleEnv 4096) 4096).exists_of_execGuarded
    (G := ArchiveGuard (exampleEnv 4096))
    (g := fun s op => decide (ArchiveGuard (exampleEnv 4096) s op)) (fun _ _ => of_decide_eq_true)
    [.insert aProcess anObject, .writedata aProcess 1 aRecord, .writedata aProcess 1 aRecord]
    (fun s => (pastRead s).any fun out : ReadOut => decide (WriteKeeps s out))
    (s := ⟨World.initial (exampleEnv 4096).atomic 4096, []⟩) rfl (by decide +kernel)
  obtain ⟨out, hread, hout⟩ := (Option.any_eq_true _ _).mp hp
  obtain ⟨hret, hg, hwritten, hstamp, hfound, hsize, hfew, hfresh, hlen⟩ := of_decide_eq_true hout
  have hevents : writeEvents aProcess 1 aRecord ((afterWrite s).data.read64 0) (afterWrite s).ret =
      [.committed 1 7 aRecord 15000000000] := by
    rw [hwritten, hstamp]
    rfl
  refine ⟨s, out, hr, hread, hret, hlen, ?_⟩
  refine readdataMode_again (bumpAlloc_sound 4096) (by decide) hr
    (.step (.init rfl) hg rfl) rfl (by decide) hread hret (by rw [hsize]; decide) ?_ hfresh
  refine ⟨hfound, ?_, ?_, by rw [hsize]; exact hfew, fun h => by cases h⟩
  · rw [hevents]
    exact fun hmem => by cases hmem with | tail _ h => cases h
  · rw [hevents]
    intro e he c hc
    rw [List.mem_singleton.mp he] at hc
    show decide (c.stamp.toInt < (14000000001 : Timestamp).toInt) = false
    rw [hc.1]
    decide

end KogmoRtdb
