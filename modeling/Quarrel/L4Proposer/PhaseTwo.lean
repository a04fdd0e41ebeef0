import Quarrel.L4Proposer.Votes

/-!
# The ACCEPT request of a prepared round

What the PREPARE phase hands to phase two.

* `accept_pid_iff`: an adopted vote is sent under its own id. The line that would
  allocate a new one is commented out, so the ACCEPT has the promised id only if
  there was no vote, or a vote of that id.
* `highest_vote`: the value is the one of the first vote with the largest id.
* `quorum_accepts_iff`: a round whose acceptors all answer, a majority of them with
  promises, broadcasts its ACCEPT if the majority that came first brought no vote,
  or if the response that came last is a promise.
-/
namespace Quarrel

open InstanceState

namespace Prepare

variable {cfg : Configure} {r : Prepare}

theorem Inv.accepted (h : Inv cfg r) {m : PaxosMsg} (hacc : r.accept = some m) :
    Conveys m (adopted r.req r.seen) := by
  cases h.stage with
  | preparing q hp => exact absurd (hacc.symm.trans hp.accept) (Option.some_ne_none m)
  | ended _ hnone => exact absurd (hacc.symm.trans hnone) (Option.some_ne_none m)
  | accepted l x m' _ _ _ _ hm hcar =>
    rw [hacc] at hm
    obtain rfl := Option.some.inj hm
    exact hcar

/-! ## The id of phase two -/

theorem accept_pid_iff {m : PaxosMsg} (h : (sys cfg).Reachable r) (hacc : r.accept = some m) :
    m.pp.pid = r.req.pp.pid ↔
      votes r.req r.seen = [] ∨ ∃ v ∈ votes r.req r.seen, v.pp.pid = r.req.pp.pid := by
  have hcar := ((votes_invariant cfg).reachable r h).accepted hacc
  by_cases hnil : votes r.req r.seen = []
  · rw [adopted_nil hnil] at hcar
    simp [hnil, hcar.pid]
  · obtain ⟨hmem, hmax⟩ := adopted_mem hnil
    rw [hcar.pid]
    constructor
    · exact fun heq => .inr ⟨_, hmem, heq⟩
    · intro hv
      obtain ⟨v, hv, heq⟩ := hv.resolve_left hnil
      have hle := (mem_votes.mp hmem).2.promise.pid_le
      have hge := hmax v hv
      omega

/-- Proposer 1 of three, preparing the value `[9]` under id 2. -/
def preparing : Prepare := start (Configure.init 1) (InstanceState.new 1 3 7) 0 1 [9] 1

theorem starts_preparing : Starts (Configure.init 1) preparing :=
  ⟨InstanceState.new 1 3 7, 0, 1, [9], 1, rfl, by decide, by decide, rfl⟩

/-- A promise of the request itself. -/
def ownPromise (id : Nat) : PaxosMsg :=
  { preparing.req with
    type := .prepareRsp, fromId := id
    pp := { preparing.req.pp with status := .promised } }

/-- A promise that brings the vote for `[5]` under the id `pid`. -/
def otherVote (pid : Nat) : PaxosMsg :=
  { ownPromise 0 with
    pp := { (ownPromise 0).pp with
      pid := pid, valueId := preparing.req.pp.valueId + 1, size := 1, data := [5] } }

/-- The vote of the master's id 1, and two promises. -/
def lowerVote : List PrepareOp :=
  [.rsp (otherVote 1), .rsp (ownPromise 1), .rsp (ownPromise 2)]

theorem reachable_of_exec {ops : List PrepareOp} {r : Prepare}
    (h : LTS.exec (step (Configure.init 1)) preparing ops = some r) :
    (sys (Configure.init 1)).Reachable r :=
  (LTS.Reachable.of_init starts_preparing).run (LTS.run_of_exec h)

theorem accept_pid_iff_lowerVote : ∃ r m, LTS.exec (step (Configure.init 1)) preparing lowerVote =
    some r ∧ r.accept = some m ∧ (m.pp.pid = r.req.pp.pid ↔
      votes r.req r.seen = [] ∨ ∃ v ∈ votes r.req r.seen, v.pp.pid = r.req.pp.pid) :=
  have hrun : LTS.exec (step (Configure.init 1)) preparing lowerVote = some _ := rfl
  ⟨_, _, hrun, rfl, accept_pid_iff (reachable_of_exec hrun) rfl⟩

/-- The ACCEPT has id 1, which the acceptors that promised id 2 turn down. -/
theorem not_accept_pid : ¬ ∀ (cfg : Configure) (r : Prepare) (m : PaxosMsg),
    (sys cfg).Reachable r → r.accept = some m → m.pp.pid = r.req.pp.pid := by
  intro hall
  have hrun : ∃ r m, LTS.exec (step (Configure.init 1)) preparing lowerVote = some r ∧
      r.accept = some m ∧ m.pp.pid ≠ r.req.pp.pid := ⟨_, _, rfl, rfl, by decide⟩
  obtain ⟨r, m, hr, hm, hne⟩ := hrun
  exact hne (hall (Configure.init 1) r m (reachable_of_exec hr) hm)

/-! ## The value of phase two -/

/-- The ACCEPT carries the value of `adopted`, and the caller is told of a peer's value
exactly if the PREPARE phase has met a vote. -/
theorem highest_vote (h : (sys cfg).Reachable r) (hfew : r.arrived.length ≤ cfg.totalAcceptor) :
    (∀ m, r.accept = some m → m.pp.value = (adopted r.req r.seen).pp.value ∧
      m.pp.valueId = (adopted r.req r.seen).pp.valueId ∧
      m.pp.proposer = (adopted r.req r.seen).pp.proposer) ∧
    (ErrCode.preparePeerValue ∈ r.replied ↔ ∃ v ∈ r.seen, OtherVote r.req v) := by
  have hinv := (votes_invariant cfg).reachable r h
  refine ⟨fun m hacc => ?_, ?_⟩
  · have hcar := hinv.accepted hacc
    exact ⟨hcar.value, hcar.valueId, hcar.proposer⟩
  · have htold : ErrCode.preparePeerValue ∈ r.replied ↔ votes r.req r.seen ≠ [] := by
      cases hinv.stage with
      | preparing q hp => exact hp.told
      | ended _ _ htold => exact htold
      | accepted _ _ _ _ _ _ _ _ _ _ hquiet => exact (hquiet hfew).2
    rw [htold]
    constructor
    · intro hne
      obtain ⟨v, hv⟩ := List.exists_mem_of_ne_nil _ hne
      exact ⟨v, mem_votes.mp hv⟩
    · intro hv
      obtain ⟨v, hv⟩ := hv
      exact List.ne_nil_of_mem (mem_votes.mpr hv)

theorem highest_vote_lowerVote : ∃ r, LTS.exec (step (Configure.init 1)) preparing lowerVote =
    some r ∧ (∀ m, r.accept = some m → m.pp.value = (adopted r.req r.seen).pp.value ∧
      m.pp.valueId = (adopted r.req r.seen).pp.valueId ∧
      m.pp.proposer = (adopted r.req r.seen).pp.proposer) ∧
    (ErrCode.preparePeerValue ∈ r.replied ↔ ∃ v ∈ r.seen, OtherVote r.req v) :=
  have hrun : LTS.exec (step (Configure.init 1)) preparing lowerVote = some _ := rfl
  ⟨_, hrun, highest_vote (reachable_of_exec hrun) (by decide)⟩

/-- No check asks for an id above 0: a promise of id 0 with another value is taken
for a vote. -/
theorem not_highest_vote : ¬ ∀ (cfg : Configure) (r : Prepare), (sys cfg).Reachable r →
    0 < r.req.pp.pid → r.arrived.length ≤ cfg.totalAcceptor →
    (∀ m, r.accept = some m → Conveys m
      ((((votes r.req r.seen).filter fun v => 0 < v.pp.pid).argmax fun x => x.pp.pid).getD r.req)) ∧
    (ErrCode.preparePeerValue ∈ r.replied ↔ ∃ v ∈ r.seen, OtherVote r.req v ∧ 0 < v.pp.pid) := by
  intro hall
  have hrun : ∃ r, LTS.exec (step (Configure.init 1)) preparing [.rsp (otherVote 0)] = some r ∧
      0 < r.req.pp.pid ∧ r.arrived.length ≤ (Configure.init 1).totalAcceptor ∧
      ErrCode.preparePeerValue ∈ r.replied ∧ ∀ v ∈ r.seen, ¬ 0 < v.pp.pid :=
    ⟨_, rfl, by decide, by decide, by decide, by decide⟩
  obtain ⟨r, hr, hpos, hfew, htold, hzero⟩ := hrun
  obtain ⟨v, hv, -, hv0⟩ :=
    (hall (Configure.init 1) r (reachable_of_exec hr) hpos hfew).2.mp htold
  exact hzero v hv hv0

/-! ## Whether phase two is reached -/

/-- The responses among the steps. -/
def rspsOf (ops : List PrepareOp) : List PaxosMsg :=
  ops.filterMap fun
    | .rsp x => some x
    | _ => none

/-- The promises of the majority that came first. -/
def firstPromises (cfg : Configure) (req : PaxosMsg) (l : List PaxosMsg) : List PaxosMsg :=
  (promises req l).take cfg.majority

/-- The majority that came first is for the caller's value, and its last promise is
not of id 0. -/
structure EarlyQuorum (cfg : Configure) (req : PaxosMsg) (l : List PaxosMsg) : Prop where
  own : ∀ y ∈ firstPromises cfg req l, ¬ OtherValue req y
  last : ∃ x, (firstPromises cfg req l).getLast? = some x ∧ 0 < x.pp.pid

/-- The majority that came first has a vote, every response is counted, no vote is
empty, and the last response is a promise of an id above 0. -/
structure LateQuorum (cfg : Configure) (req : PaxosMsg) (l : List PaxosMsg) : Prop where
  vote : ∃ y ∈ firstPromises cfg req l, OtherValue req y
  types : ∀ y ∈ l, y.type = .prepareRsp
  sizes : ∀ y ∈ promises req l, OtherValue req y → 0 < y.pp.size
  last : ∃ x, l.getLast? = some x ∧ ValidPromise req x ∧ 0 < x.pp.pid

section

variable {req x : PaxosMsg} {l R : List PaxosMsg}

theorem promises_mono (req : PaxosMsg) (h : l <+: R) : promises req l <+: promises req R := h.filter _

theorem firstPromises_eq (h : l <+: R) (hmaj : cfg.majority ≤ (promises req l).length) :
    firstPromises cfg req R = (promises req l).take cfg.majority := by
  obtain ⟨t, ht⟩ := promises_mono req h
  unfold firstPromises
  rw [← ht, List.take_append_of_le_length hmaj]

theorem mem_firstPromises (h : l <+: R) (hmaj : (promises req l).length ≤ cfg.majority)
    (hx : x ∈ promises req l) : x ∈ firstPromises cfg req R := by
  obtain ⟨t, ht⟩ := promises_mono req h
  unfold firstPromises
  rw [← ht, List.take_append, List.take_of_length_le hmaj]
  exact List.mem_append_left _ hx

/-- While the phase is open, the first majority is not complete or has a vote. -/
theorem EarlyQuorum.short (h : EarlyQuorum cfg req R) (hl : l <+: R) (hopen : Open cfg req l) :
    (promises req l).length < cfg.majority := by
  by_contra hge
  obtain ⟨y, hy, hother⟩ := hopen.early (Nat.not_lt.mp hge)
  rw [← firstPromises_eq hl (Nat.not_lt.mp hge)] at hy
  exact h.own y hy hother

theorem all_seen (hall : R.length = cfg.totalAcceptor) (hl : l ++ [x] <+: R)
    (hans : (answers l).length + 1 = cfg.totalAcceptor) : l ++ [x] = R := by
  have hle : (answers l).length ≤ l.length := List.length_filter_le _ _
  refine hl.eq_of_length_le ?_
  rw [hall, List.length_append, List.length_singleton]
  omega

/-- While the phase is open, no response kills the process. -/
theorem quorum_sizes (h : EarlyQuorum cfg req R ∨ LateQuorum cfg req R) (hl : l ++ [x] <+: R)
    (hopen : Open cfg req l) (hv : ValidPromise req x) (hother : OtherValue req x) :
    0 < x.pp.size := by
  have hmem : x ∈ promises req (l ++ [x]) := mem_promises.mpr ⟨by simp, hv⟩
  rcases h with h | h
  · have hshort := h.short ((List.prefix_append l [x]).trans hl) hopen
    refine absurd hother (h.own x (mem_firstPromises hl ?_ hmem))
    rw [promises_append hv, List.length_append, List.length_singleton]
    omega
  · exact h.sizes x ((promises_mono req hl).mem hmem) hother

/-- The response that ends the phase as the last one decides it. -/
theorem quorum_decided (h : EarlyQuorum cfg req R ∨ LateQuorum cfg req R)
    (hall : R.length = cfg.totalAcceptor) (hmaj : cfg.majority ≤ (promises req R).length)
    (hl : l ++ [x] <+: R) (hopen : Open cfg req l)
    (hans : (answers l).length + 1 = cfg.totalAcceptor) : Decided cfg req l x := by
  have hR := all_seen hall hl hans
  have hv : ValidPromise req x := by
    rcases h with h | h
    · by_contra hv
      have hshort := h.short ((List.prefix_append l [x]).trans hl) hopen
      rw [← hR, promises_append_not hv] at hmaj
      omega
    · obtain ⟨y, hy, hvy, _⟩ := h.last
      rw [← hR, List.getLast?_concat] at hy
      exact Option.some.inj hy ▸ hvy
  refine ⟨hv, quorum_sizes h hl hopen hv, ?_, fun _ => hans⟩
  rwa [← hR, promises_append hv, List.length_append, List.length_singleton] at hmaj

/-- The response that decides the phase starts phase two. -/
theorem quorum_pid (h : EarlyQuorum cfg req R ∨ LateQuorum cfg req R)
    (hall : R.length = cfg.totalAcceptor) (hl : l ++ [x] <+: R) (hopen : Open cfg req l)
    (hdec : Decided cfg req l x) : 0 < x.pp.pid := by
  have hlen : (promises req (l ++ [x])).length = (promises req l).length + 1 := by
    rw [promises_append hdec.promise, List.length_append, List.length_singleton]
  have hmaj := hdec.majority
  rcases h with h | h
  · have hshort := h.short ((List.prefix_append l [x]).trans hl) hopen
    obtain ⟨y, hy, hpos⟩ := h.last
    rw [firstPromises_eq hl (by omega), List.take_of_length_le (by omega),
      promises_append hdec.promise, List.getLast?_concat] at hy
    exact Option.some.inj hy ▸ hpos
  · have hne : votes req (l ++ [x]) ≠ [] := by
      intro hnil
      obtain ⟨y, hy, hother⟩ := h.vote
      rw [firstPromises_eq hl (by omega)] at hy
      have hyp := List.mem_of_mem_take hy
      have hvote : OtherVote req y := ⟨(mem_promises.mp hyp).2, hother,
        h.sizes y ((promises_mono req hl).mem hyp) hother⟩
      have : y ∈ votes req (l ++ [x]) := mem_votes.mpr ⟨(mem_promises.mp hyp).1, hvote⟩
      rw [hnil] at this
      cases this
    obtain ⟨y, hy, _, hpos⟩ := h.last
    rw [← all_seen hall hl (hdec.waits hne), List.getLast?_concat] at hy
    exact Option.some.inj hy ▸ hpos

/-- A phase that starts phase two had one of the two majorities. -/
theorem quorum_of_decided (hall : R.length = cfg.totalAcceptor) (hl : l ++ [x] <+: R)
    (hopen : Open cfg req l) (hdec : Decided cfg req l x) (hpos : 0 < x.pp.pid) :
    EarlyQuorum cfg req R ∨ LateQuorum cfg req R := by
  have hv := hdec.promise
  have hlen : (promises req (l ++ [x])).length = (promises req l).length + 1 := by
    rw [promises_append hv, List.length_append, List.length_singleton]
  have hmaj := hdec.majority
  have hfirst : firstPromises cfg req R = (promises req (l ++ [x])).take cfg.majority :=
    firstPromises_eq hl (by omega)
  have hsizes : ∀ y ∈ promises req (l ++ [x]), OtherValue req y → 0 < y.pp.size := by
    intro y hy
    rw [promises_append hv] at hy
    rcases List.mem_append.mp hy with hy | hy
    · exact hopen.sizes y hy
    · obtain rfl := List.mem_singleton.mp hy
      exact hdec.size
  by_cases hnil : votes req (l ++ [x]) = []
  · have hown : ∀ y ∈ promises req (l ++ [x]), ¬ OtherValue req y := by
      intro y hy hother
      obtain ⟨hyl, hvy⟩ := mem_promises.mp hy
      have : y ∈ votes req (l ++ [x]) := mem_votes.mpr ⟨hyl, hvy, hother, hsizes y hy hother⟩
      rw [hnil] at this
      cases this
    have hshort : (promises req l).length < cfg.majority := by
      by_contra hge
      obtain ⟨y, hy, hother⟩ := hopen.early (Nat.not_lt.mp hge)
      refine hown y ?_ hother
      rw [promises_append hv]
      exact List.mem_append_left _ (List.mem_of_mem_take hy)
    rw [List.take_of_length_le (by omega)] at hfirst
    refine .inl ⟨fun y hy => hown y (hfirst ▸ hy), x, ?_, hpos⟩
    rw [hfirst, promises_append hv, List.getLast?_concat]
  · have hans := hdec.waits hnil
    have hR := all_seen hall hl hans
    refine .inr ⟨?_, fun y hy => ?_, hR ▸ hsizes, x, ?_, hv, hpos⟩
    · by_cases hold : cfg.majority ≤ (promises req l).length
      · obtain ⟨y, hy, hother⟩ := hopen.early hold
        refine ⟨y, ?_, hother⟩
        rw [firstPromises_eq ((List.prefix_append l [x]).trans hl) hold]
        exact hy
      · obtain ⟨y, hy⟩ := List.exists_mem_of_ne_nil _ hnil
        obtain ⟨hyl, hvote⟩ := mem_votes.mp hy
        exact ⟨y, mem_firstPromises hl (by omega) (mem_promises.mpr ⟨hyl, hvote.promise⟩),
          hvote.other⟩
    · have hcount : (answers R).length = R.length := by
        rw [← hR, answers_append, if_pos hv.type, hans, hR, hall]
      exact of_decide_eq_true (List.length_filter_eq_length_iff.mp hcount y hy)
    · rw [← hR, List.getLast?_concat]

end

/-- A response kills the process by an empty vote only. -/
theorem handlePrepareRsp_dies {s : InstanceState} {req q x : PaxosMsg} {l : List PaxosMsg}
    (hreq : s.req = some q) (hc : Counts req l s) (hq : Conveys q req)
    (hlt : (answers l).length < 255) (h : s.handlePrepareRsp cfg x = none) :
    ValidPromise req x ∧ OtherValue req x ∧ ¬ 0 < x.pp.size := by
  unfold handlePrepareRsp at h
  rw [hreq] at h
  dsimp only at h
  split at h
  · cases h
  rename_i ht
  split at h
  · cases h
  rename_i he
  split at h
  · cases h
  rename_i hst
  split at h
  · cases h
  rename_i hle
  rw [ne_eq, not_not] at ht he hst
  have hv : ValidPromise q x := ⟨ht, he, hst, Nat.not_lt.mp hle⟩
  unfold preparePromised at h
  dsimp only at h
  split at h
  · rename_i hdie
    exact ⟨(ValidPromise.congr hq).mp hv, (OtherValue.congr hq).mp hdie.1, hdie.2⟩
  rename_i hsz
  have hsz' : OtherValue req x → 0 < x.pp.size := by
    intro ho
    by_contra hs
    exact hsz ⟨(OtherValue.congr hq).mpr ho, hs⟩
  split at h
  · split at h
    · -- a flag without a vote kept is excluded
      have hc' := hc.promise hq ((ValidPromise.congr hq).mp hv) hsz' hlt
      have hsome : s.acceptSource q x ≠ none := by
        unfold acceptSource
        split
        · rename_i hn
          rw [hc'.lastv (hc'.notified.mp hn)]
          simp only [ne_eq, Option.map_eq_none_iff, List.argmax_eq_none]
          exact hc'.notified.mp hn
        · simp
      change startAccept cfg (s.afterPromise q x) (merge q x) _ = none at h
      unfold startAccept at h
      obtain ⟨m, hm⟩ := Option.ne_none_iff_exists'.mp hsome
      unfold acceptSource at hm
      rw [hm] at h
      cases h
    · cases h
  · cases h

/-! ## Whole runs -/

/-- A step adds its response, and a timeout is the only step that sets the flag. -/
theorem step_arrived {r r' : Prepare} {op : PrepareOp} (hs : (sys cfg).step r op r') :
    r'.req = r.req ∧ r'.arrived = r.arrived ++ rspsOf [op] ∧
      (op ≠ .timeout → r'.timedOut = r.timedOut) := by
  cases op with
  | rsp x =>
    obtain ⟨res, -, rfl⟩ := Option.map_eq_some_iff.mp hs
    exact ⟨rfl, rfl, fun _ => rfl⟩
  | timeout =>
    simp only [sys, LTS.ofFn, Prepare.step] at hs
    split at hs
    · obtain rfl := Option.some.inj hs
      exact ⟨rfl, (List.append_nil _).symm, fun h => absurd rfl h⟩
    · obtain rfl := Option.some.inj hs
      exact ⟨rfl, (List.append_nil _).symm, fun _ => rfl⟩
  | entryChosen pp fromPlog =>
    obtain rfl := Option.some.inj hs
    exact ⟨rfl, (List.append_nil _).symm, fun _ => rfl⟩

theorem rspsOf_cons (op : PrepareOp) (ops : List PrepareOp) :
    rspsOf (op :: ops) = rspsOf [op] ++ rspsOf ops := by
  cases op <;> rfl

theorem run_arrived {r r' : Prepare} {ops : List PrepareOp} (hr : (sys cfg).Run r ops r') :
    r'.req = r.req ∧ r'.arrived = r.arrived ++ rspsOf ops ∧
      (.timeout ∉ ops → r'.timedOut = r.timedOut) := by
  induction hr with
  | nil => exact ⟨rfl, (List.append_nil _).symm, fun _ => rfl⟩
  | cons hs _ ih =>
    obtain ⟨h1, h2, h3⟩ := step_arrived hs
    obtain ⟨ih1, ih2, ih3⟩ := ih
    refine ⟨ih1.trans h1, ?_, fun hno => ?_⟩
    · rw [ih2, h2, List.append_assoc, ← rspsOf_cons]
    · rw [ih3 fun hm => hno (List.mem_cons_of_mem _ hm), h3 fun he => hno (he ▸ List.mem_cons_self)]

theorem step_exists {r : Prepare} (h : Inv cfg r) (op : PrepareOp)
    (hsafe : ∀ x, op = .rsp x → Open cfg r.req r.arrived → ValidPromise r.req x →
      OtherValue r.req x → 0 < x.pp.size) : ∃ r', (sys cfg).step r op r' := by
  cases op with
  | rsp x =>
    suffices hne : r.inst.handleRsp cfg r.term x ≠ none by
      obtain ⟨res, hres⟩ := Option.ne_none_iff_exists'.mp hne
      exact ⟨_, Option.map_eq_some_iff.mpr ⟨res, hres, rfl⟩⟩
    unfold handleRsp
    split
    · simp
    rename_i haw
    split
    · rename_i hph
      cases h.stage with
      | preparing q hp =>
        intro hnone
        obtain ⟨hv, hother, hempty⟩ := handlePrepareRsp_dies hp.req hp.counts hp.conveys hp.rsps_lt hnone
        exact hempty (hsafe x rfl (hp.seen ▸ hp.opened) hv hother)
      | accepted _ _ _ _ _ _ _ _ _ hph' =>
        rcases hph' with hidle | hph'
        · rw [not_not] at haw
          exact absurd hidle (Option.isSome_iff_ne_none.mp haw.2)
        · rw [hph] at hph'
          exact absurd hph' (by decide)
      | ended hidle =>
        rw [not_not] at haw
        exact absurd hidle (Option.isSome_iff_ne_none.mp haw.2)
    · split <;> simp
  | timeout =>
    simp only [sys, LTS.ofFn, Prepare.step]
    split <;> exact ⟨_, rfl⟩
  | entryChosen pp fromPlog => exact ⟨_, rfl⟩

theorem run_exists {R : List PaxosMsg} : ∀ {r : Prepare} {ops : List PrepareOp}, Inv cfg r →
    r.arrived ++ rspsOf ops = R →
    (∀ l x, l ++ [x] <+: R → Open cfg r.req l → ValidPromise r.req x → OtherValue r.req x →
      0 < x.pp.size) → ∃ r', (sys cfg).Run r ops r'
  | r, [], _, _, _ => ⟨r, .nil r⟩
  | r, op :: ops, h, hR, hsafe => by
    rw [rspsOf_cons, ← List.append_assoc] at hR
    obtain ⟨r₁, hs⟩ := step_exists h op fun x hx hopen hv hother => by
      refine hsafe r.arrived x ?_ hopen hv hother
      rw [← hR, hx]
      exact List.prefix_append _ _
    obtain ⟨hreq, harr, -⟩ := step_arrived hs
    obtain ⟨r', hr⟩ : ∃ r', (sys cfg).Run r₁ ops r' :=
      run_exists (R := R) (h.step hs) (by rw [harr]; exact hR) (by rw [hreq]; exact hsafe)
    exact ⟨r', .cons hs hr⟩

/-- All acceptors answer a round before its timeout, and a majority of them promises:
phase two is reached exactly from one of the two majorities. -/
theorem quorum_accepts_iff {r₀ : Prepare} {ops : List PrepareOp} (hstart : Starts cfg r₀)
    (hto : .timeout ∉ ops) (hall : (rspsOf ops).length = cfg.totalAcceptor)
    (hmaj : cfg.majority ≤ ((promises r₀.req (rspsOf ops)).filter fun x => 0 < x.pp.pid).length) :
    (∃ r, (sys cfg).Run r₀ ops r ∧ r.accept ≠ none) ↔
      EarlyQuorum cfg r₀.req (rspsOf ops) ∨ LateQuorum cfg r₀.req (rspsOf ops) := by
  have h₀ := Inv.start hstart
  have harr₀ : r₀.arrived = [] := by
    obtain ⟨s, pinst, opaqueData, val, promise, -, -, -, rfl⟩ := hstart
    rfl
  have hflag₀ : r₀.timedOut = false := by
    obtain ⟨s, pinst, opaqueData, val, promise, -, -, -, rfl⟩ := hstart
    rfl
  have hmaj' : cfg.majority ≤ (promises r₀.req (rspsOf ops)).length :=
    hmaj.trans (List.length_filter_le _ _)
  have hend : ∀ r, (sys cfg).Run r₀ ops r → Inv cfg r ∧ r.req = r₀.req ∧ r.arrived = rspsOf ops ∧
      r.timedOut = false := by
    intro r hr
    obtain ⟨h1, h2, h3⟩ := run_arrived hr
    exact ⟨hr.preserve (fun _ _ _ h hs => Inv.step h hs) h₀, h1, by rw [h2, harr₀, List.nil_append],
      (h3 hto).trans hflag₀⟩
  constructor
  · intro hex
    obtain ⟨r, hr, hacc⟩ := hex
    obtain ⟨hinv, hreq, harr, -⟩ := hend r hr
    have hseen := hinv.seen
    rw [harr] at hseen
    cases hinv.stage with
    | preparing q hp => exact absurd hp.accept hacc
    | ended _ hnone => exact absurd hnone hacc
    | accepted l x m hsx hopen hdec hpos =>
      rw [hreq] at hopen hdec
      exact quorum_of_decided hall (hsx ▸ hseen) hopen hdec hpos
  · intro hq
    obtain ⟨r, hr⟩ := run_exists (R := rspsOf ops) h₀ (by rw [harr₀, List.nil_append])
      fun l x hl hopen hv hother => quorum_sizes hq hl hopen hv hother
    obtain ⟨hinv, hreq, harr, hflag⟩ := hend r hr
    have hseen := hinv.seen
    rw [harr] at hseen
    refine ⟨r, hr, ?_⟩
    cases hinv.stage with
    | preparing q hp =>
      have hopen := hp.opened
      rw [hp.seen, harr, hreq] at hopen
      rcases hq with hq | hq
      · exact absurd hmaj' (Nat.not_le.mpr (hq.short (List.prefix_refl _) hopen))
      · have hlen : (answers (rspsOf ops)).length = (rspsOf ops).length :=
          List.length_filter_eq_length_iff.mpr fun y hy => decide_eq_true (hq.types y hy)
        have hlate := hopen.late
        omega
    | accepted l x m _ _ _ _ hacc => rw [hacc]; simp
    | ended _ _ _ hwhy =>
      rw [hflag] at hwhy
      obtain ⟨l, x, hsx, hopen, hwhy⟩ := hwhy.resolve_left (by simp)
      rw [hsx] at hseen
      rw [hreq] at hopen hwhy
      rcases hwhy with ⟨hnot, _, hans⟩ | ⟨hdec, h0⟩
      · exact absurd (quorum_decided hq hall hmaj' hseen hopen hans) hnot
      · have := quorum_pid hq hall hseen hopen hdec
        omega

/-- The vote of id 1, a promise, and an acceptor that fails. -/
def voteFirst : List PrepareOp :=
  [.rsp (otherVote 1), .rsp (ownPromise 1), .rsp { ownPromise 2 with errcode := ErrCode.oom }]

theorem quorum_accepts_iff_voteFirst :
    (∃ r, (sys (Configure.init 1)).Run preparing voteFirst r ∧ r.accept ≠ none) ↔
      EarlyQuorum (Configure.init 1) preparing.req (rspsOf voteFirst) ∨
        LateQuorum (Configure.init 1) preparing.req (rspsOf voteFirst) :=
  quorum_accepts_iff starts_preparing (by simp [voteFirst]) rfl (by decide)

/-- Two of three acceptors promise, the third fails last: the round ends. -/
theorem not_quorum_accepts : ¬ ∀ (cfg : Configure) (r₀ : Prepare) (ops : List PrepareOp),
    Starts cfg r₀ → .timeout ∉ ops → (rspsOf ops).length = cfg.totalAcceptor →
    cfg.majority ≤ ((promises r₀.req (rspsOf ops)).filter fun x => 0 < x.pp.pid).length →
    ∃ r, (sys cfg).Run r₀ ops r ∧ r.accept ≠ none := by
  intro hall
  obtain ⟨r, hr, hacc⟩ := hall (Configure.init 1) preparing voteFirst starts_preparing
    (by simp [voteFirst]) rfl (by decide)
  have hrun : ∃ r', LTS.exec (step (Configure.init 1)) preparing voteFirst = some r' ∧
      r'.accept = none := ⟨_, rfl, rfl⟩
  obtain ⟨r', hr', hnone⟩ := hrun
  rw [LTS.exec_of_run hr] at hr'
  obtain rfl := Option.some.inj hr'
  exact hacc hnone

end Prepare

end Quarrel
