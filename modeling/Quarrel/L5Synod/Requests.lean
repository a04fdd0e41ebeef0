import Quarrel.L4Acceptor.Answers
import Quarrel.L5Synod.System

/-!
# Requests and answers

What does not depend on how the proposers run their rounds: a broadcast is a
request of its instance, the manager of that instance serves it, and the answer
says what `AnswerOk` states. It survives a restart of a proposer, which `Sane`
does not.

* `Requests`: the broadcasts, what the acceptors hold, and the answers.
* `Requests.handled`, `Requests.step_mng`: who serves a broadcast, and what a step
  does to one manager.
* `Requests.step`: every step keeps it, if what is newly broadcast is a request.
-/
namespace Quarrel

open InstanceState EntryMng

variable {cfg : Configure}

/-- The broadcast is one of instance `i` of proposer `k`. -/
def Bcast.Of (c : Bcast cfg) (k : Fin cfg.totalProposer) (i : Nat) : Prop := c.src = k ∧ c.inst = i

/-- A broadcast of an instance to its acceptors. -/
structure RequestOk (c : Bcast cfg) : Prop where
  pinst : c.msg.pp.pinst = c.inst
  inst_lt : c.inst < cfg.plogInstNum
  type : c.msg.type = .prepareReq ∨ c.msg.type = .acceptReq ∨ c.msg.type = .chosenReq
  prepare : c.msg.type = .prepareReq → c.msg.pp.size = 0

namespace Synod

/-- What the answer `x` to `c` says. -/
structure AnswerOk (s : Synod cfg) (x : Answer cfg) (c : Bcast cfg) : Prop where
  bcast : s.bcasts[x.bid]? = some c
  pinst : x.msg.pp.pinst = c.msg.pp.pinst ∨ (x.msg.errcode ≠ ErrCode.ok ∧ x.msg.type = .acceptRsp)
  prepare : x.msg.type = .prepareRsp → c.msg.type = .prepareReq
  promise : x.msg.type = .prepareRsp → x.msg.pp.status = .promised →
    x.msg.pp.size = 0 ∧ c.msg.pp.pid ≤ x.msg.pp.pid
  accept : x.msg.type = .acceptRsp → c.msg.type = .acceptReq
  vote : x.msg.type = .acceptRsp → x.msg.errcode = ErrCode.ok → x.msg.pp.status = .accepted →
    Same x.msg.pp c.msg.pp ∧
      ⟨x.acc, c.msg.pp.pinst, c.msg.pp.pentry, c.msg.pp.pid, c.msg.pp.valueId⟩ ∈ s.votes

structure Requests (s : Synod cfg) : Prop where
  bcast : ∀ c ∈ s.bcasts, RequestOk c
  accs : ∀ a i, 0 < ((s.accs a).mngs i).entries.maxSize ∧ OwnProposals i ((s.accs a).mngs i) ∧
    EmptyPromises ((s.accs a).mngs i)
  answers : ∀ x ∈ s.rsps, ∃ c, s.AnswerOk x c

section

variable {s s' : Synod cfg} {k : Fin cfg.totalProposer} {i : Nat} {new : List (Bcast cfg)}

/-! ## Broadcasts -/

/-- A broadcast of an instance nothing new is broadcast of is an old one. -/
theorem Grows.old_get (hg : Grows s s' new) (hnew : ∀ c ∈ new, ¬ c.Of k i) {b : Nat} {c : Bcast cfg}
    (hc : s'.bcasts[b]? = some c) (ho : c.Of k i) : s.bcasts[b]? = some c := by
  rw [hg.bcasts, List.getElem?_append] at hc
  split at hc
  · exact hc
  · exact absurd ho (hnew c (List.mem_of_getElem? hc))

theorem Grows.old_mem (hg : Grows s s' new) (hnew : ∀ c ∈ new, ¬ c.Of k i) {c : Bcast cfg}
    (hc : c ∈ s'.bcasts) (ho : c.Of k i) : c ∈ s.bcasts := by
  rw [hg.bcasts] at hc
  exact (List.mem_append.mp hc).resolve_right fun h => hnew c h ho

theorem Grows.mem (hg : Grows s s' new) {c : Bcast cfg} (hc : c ∈ s.bcasts) : c ∈ s'.bcasts := by
  rw [hg.bcasts]
  exact List.mem_append_left _ hc

theorem Grows.get (hg : Grows s s' new) {b : Nat} {c : Bcast cfg} (hc : s.bcasts[b]? = some c) :
    s'.bcasts[b]? = some c := by
  rw [hg.bcasts, List.getElem?_append_left (List.getElem?_eq_some_iff.mp hc).1]
  exact hc

theorem Grows.get_push {c₀ c : Bcast cfg} (hg : Grows s s' [c₀]) {b : Nat}
    (hc : s'.bcasts[b]? = some c) :
    s.bcasts[b]? = some c ∨ (b = s.bcasts.length ∧ c = c₀) := by
  rw [hg.bcasts, List.getElem?_append] at hc
  split at hc
  · exact .inl hc
  · rename_i hlt
    rw [List.getElem?_singleton] at hc
    split at hc
    · exact .inr ⟨by omega, (Option.some.inj hc).symm⟩
    · cases hc

theorem Grows.mem_push {c₀ c : Bcast cfg} (hg : Grows s s' [c₀]) (hc : c ∈ s'.bcasts) :
    c ∈ s.bcasts ∨ c = c₀ := by
  rw [hg.bcasts] at hc
  exact (List.mem_append.mp hc).imp id List.mem_singleton.mp

/-! ## Answers -/

theorem AnswerOk.later {x : Answer cfg} {c : Bcast cfg} (h : s.AnswerOk x c) (hg : Grows s s' new) :
    s'.AnswerOk x c :=
  ⟨hg.get h.bcast, h.pinst, h.prepare, h.promise, h.accept, fun h1 h2 h3 =>
    ⟨(h.vote h1 h2 h3).1, hg.votes (h.vote h1 h2 h3).2⟩⟩

/-- What an answer says about the request it belongs to. -/
theorem Requests.answerOk (h : s.Requests) {x : Answer cfg} {c : Bcast cfg} (hx : x ∈ s.rsps)
    (hc : s.bcasts[x.bid]? = some c) : s.AnswerOk x c := by
  obtain ⟨c', hok⟩ := h.answers x hx
  obtain rfl := Option.some.inj (hc.symm.trans hok.bcast)
  exact hok

theorem Requests.mngOf (h : s.Requests) {c : Bcast cfg} (hc : c ∈ s.bcasts) :
    cfg.mngOf c.msg.pp.pinst = c.inst := by
  have hok := h.bcast c hc
  unfold Configure.mngOf
  rw [hok.pinst]
  exact Nat.mod_eq_of_lt hok.inst_lt

theorem Requests.fair (h : s.Requests) {x : Answer cfg} (hx : x ∈ s.rsps) : s.Fair x := by
  obtain ⟨c, hok⟩ := h.answers x hx
  have hb := h.bcast c (List.mem_of_getElem? hok.bcast)
  exact ⟨⟨c, hok.bcast, hb.pinst ▸ hb.inst_lt, hok.pinst⟩, fun h1 h2 => (hok.promise h1 h2).1⟩

/-- A broadcast is a request, and the manager of its instance serves it. -/
theorem Requests.handled (h : s.Requests) {c : Bcast cfg} (hc : c ∈ s.bcasts)
    (acc : Fin cfg.totalAcceptor) (saves : Saves) :
    ∃ hd rt, Served ((s.accs acc).mngs c.inst) saves c.msg.pp c.msg.type hd ∧
      ((s.accs acc).doHandleMsg (cfg.on acc) saves c.msg).2.mngs =
        Function.update (s.accs acc).mngs c.inst hd.mng ∧
      ((s.accs acc).doHandleMsg (cfg.on acc) saves c.msg).1 = some { hd.rsp with
        type := rt, fromId := (cfg.on acc).localId, version := c.msg.version, magic := c.msg.magic,
        reqid := c.msg.reqid } := by
  have hmng : (cfg.on acc).mngOf c.msg.pp.pinst = c.inst := h.mngOf hc
  rcases doHandleMsg_cases (cfg.on acc) (s.accs acc) saves c.msg (h.accs acc _).1
      with ⟨_, hn⟩ | hserved
  · rcases (h.bcast c hc).type with ht | ht | ht <;> (rw [ht] at hn; cases hn)
  · rwa [hmng] at hserved

/-- What step `l` does to the manager of instance `j` of acceptor `a`: nothing, or it serves a
broadcast of that instance, or it is read back from its log. -/
inductive MngStep (s s' : Synod cfg) (a : Fin cfg.totalAcceptor) (j : Nat) : SynodOp cfg → Prop
  | same (l : SynodOp cfg) (hm : (s'.accs a).mngs j = (s.accs a).mngs j) : MngStep s s' a j l
  | served (bid : Nat) (saves : Saves) (c : Bcast cfg) (hd : Handled) (hc : s.bcasts[bid]? = some c)
      (hinst : c.inst = j) (hs : Served ((s.accs a).mngs j) saves c.msg.pp c.msg.type hd)
      (hm : (s'.accs a).mngs j = hd.mng) : MngStep s s' a j (.deliver bid a saves)
  | restart (batch : Batch) (lastCommitted : Except Int Nat) (fuel : Nat)
      (hm : loadAllFromDisk batch lastCommitted fuel
        (EntryMng.new (cfg.on a) j ((s.accs a).mngs j).disk) = some (true, (s'.accs a).mngs j)) :
      MngStep s s' a j (.restart a j batch lastCommitted fuel)

theorem Requests.step_mng (h : s.Requests) {l : SynodOp cfg} (hs : s.step l = some s')
    (a : Fin cfg.totalAcceptor) (j : Nat) :
    MngStep s s' a j l := by
  cases step_net hs with
  | other _ haccs => exact .same _ (by rw [haccs])
  | deliver bid acc saves c hc haccs =>
    by_cases ha : a = acc
    · subst ha
      obtain ⟨hd, rt, hsv, hm, _⟩ := h.handled (List.mem_of_getElem? hc) a saves
      by_cases hj : j = c.inst
      · subst hj
        exact .served bid saves c hd hc rfl hsv
          (by rw [haccs, Function.update_self, hm, Function.update_self])
      · exact .same _ (by rw [haccs, Function.update_self, hm, Function.update_of_ne hj])
    · exact .same _ (by rw [haccs, Function.update_of_ne ha])
  | restart acc inst batch lastCommitted fuel m hm haccs =>
    by_cases ha : a = acc
    · subst ha
      by_cases hj : j = inst
      · subst hj
        have hm' : (s'.accs a).mngs j = m := by
          rw [haccs, Function.update_self]
          exact Function.update_self _ _ _
        exact .restart batch lastCommitted fuel (hm'.symm ▸ hm)
      · refine .same _ ?_
        rw [haccs, Function.update_self]
        exact Function.update_of_ne hj _ _
    · exact .same _ (by rw [haccs, Function.update_of_ne ha])

/-- An answer is what the manager answers. -/
theorem Requests.handled_rsp (h : s.Requests) {acc : Fin cfg.totalAcceptor} {saves : Saves}
    {c : Bcast cfg}
    {rsp : PaxosMsg} (hc : c ∈ s.bcasts)
    (hr : ((s.accs acc).doHandleMsg (cfg.on acc) saves c.msg).1 = some rsp) :
    ∃ hd, Served ((s.accs acc).mngs c.inst) saves c.msg.pp c.msg.type hd ∧
      ((s.accs acc).doHandleMsg (cfg.on acc) saves c.msg).2.mngs = Function.update
      (s.accs acc).mngs c.inst hd.mng ∧
      rsp.pp = hd.rsp.pp ∧ rsp.errcode = hd.rsp.errcode := by
  obtain ⟨hd, rt, hs, hm, hr'⟩ := h.handled hc acc saves
  rw [hr'] at hr
  obtain rfl := Option.some.inj hr
  exact ⟨hd, hs, hm, rfl, rfl⟩

/-- An answer has been there, or step `l` delivers its request. -/
theorem Requests.step_rsps (h : s.Requests) {l : SynodOp cfg} (hs : s.step l = some s')
    {x : Answer cfg}
    (hx : x ∈ s'.rsps) : x ∈ s.rsps ∨ ∃ saves c hd, l = .deliver x.bid x.acc saves ∧
    s.bcasts[x.bid]? = some c ∧
      Served ((s.accs x.acc).mngs c.inst) saves c.msg.pp c.msg.type hd ∧ x.msg.pp = hd.rsp.pp := by
  cases step_net hs with
  | other _ _ hrsps | restart _ _ _ _ _ _ _ _ hrsps =>
    rw [hrsps] at hx
    exact .inl hx
  | deliver bid acc saves c hc _ hrsps =>
    rw [hrsps] at hx
    refine (List.mem_append.mp hx).imp id fun hx => ?_
    obtain ⟨rsp, hrsp, rfl⟩ := List.mem_map.mp hx
    obtain ⟨hd, hsv, _, hpp, _⟩ :=
      h.handled_rsp (List.mem_of_getElem? hc) (Option.mem_toList.mp hrsp)
    exact ⟨saves, c, hd, rfl, hc, hsv, hpp⟩

theorem Requests.answer (h : s.Requests) {bid : Nat} {acc : Fin cfg.totalAcceptor} {saves : Saves}
    {c : Bcast cfg} {rsp : PaxosMsg} (hc : s.bcasts[bid]? = some c)
    (hr : ((s.accs acc).doHandleMsg (cfg.on acc) saves c.msg).1 = some rsp) (hg : Grows s s' new)
    (hvotes : s'.votes = s.votes ++
      voteOf acc ((s.accs acc).doHandleMsg (cfg.on acc) saves c.msg).2 c.msg) :
    s'.AnswerOk ⟨bid, acc, rsp⟩ c := by
  have hmem := List.mem_of_getElem? hc
  have hok := h.bcast c hmem
  obtain ⟨hpos, hown, hempty⟩ := h.accs acc c.inst
  obtain ⟨hd, hs, hm, hrsp⟩ := h.handled_rsp hmem hr
  have hpin := hs.rsp_pinst hown hok.pinst
  rw [← hrsp.1] at hpin
  rcases hok.type with ht | ht | ht
  · have htype : rsp.type = .prepareRsp := doHandleMsg_type hr (by rw [ht]; rfl)
    rw [ht] at hs hpin
    rw [if_neg (by simp)] at hpin
    refine ⟨hg.get hc, .inl (hpin.trans hok.pinst.symm), fun _ => ht, fun _ hst => ?_, ?_, ?_⟩
    · show rsp.pp.size = 0 ∧ c.msg.pp.pid ≤ rsp.pp.pid
      rw [hrsp.1]
      exact hs.promise hempty (hok.prepare ht) (hrsp.1 ▸ hst)
    · intro ha
      rw [htype] at ha
      cases ha
    · intro ha
      rw [htype] at ha
      cases ha
  · have htype : rsp.type = .acceptRsp := doHandleMsg_type hr (by rw [ht]; rfl)
    rw [ht] at hs hpin
    refine ⟨hg.get hc, ?_, ?_, ?_, fun _ => ht, fun _ hok' hst => ?_⟩
    · by_cases hb : Behind ((s.accs acc).mngs c.inst) c.msg.pp
      · exact .inr ⟨by show rsp.errcode ≠ _; rw [hrsp.2]; exact hs.lag hb, htype⟩
      · rw [if_neg fun h => hb h.2] at hpin
        exact .inl (hpin.trans hok.pinst.symm)
    · intro hp
      rw [htype] at hp
      cases hp
    · intro hp
      rw [htype] at hp
      cases hp
    · obtain ⟨hsame, x, q, hx, hxq, hpid, hvid⟩ := hs.vote (hrsp.2 ▸ hok') (hrsp.1 ▸ hst)
      refine ⟨by show Same rsp.pp _; rw [hrsp.1]; exact hsame, ?_⟩
      rw [hvotes]
      refine List.mem_append_right _ ?_
      have hholds : Holds cfg ((s.accs acc).doHandleMsg (cfg.on acc) saves c.msg).2 c.msg.pp := by
        refine ⟨x, q, ?_, hxq, hpid, hvid⟩
        rw [hm, h.mngOf hmem, Function.update_self]
        exact hx
      unfold voteOf
      rw [if_pos ⟨ht, hholds⟩]
      exact List.mem_singleton_self _
  · have htype : rsp.type = .chosenRsp := doHandleMsg_type hr (by rw [ht]; rfl)
    rw [ht] at hpin
    rw [if_neg (by simp)] at hpin
    refine ⟨hg.get hc, .inl (hpin.trans hok.pinst.symm), ?_, ?_, ?_, ?_⟩ <;>
      (intro ha; rw [htype] at ha; cases ha)

/-! ## Every step -/

theorem requests_start (cfg : Configure) (sec : Fin cfg.totalProposer → Nat) :
    (start cfg sec).Requests := by
  refine ⟨?_, fun a i => ⟨cfg.cache_pos, ownProposals_new _ _, emptyPromises_new _ _⟩, ?_⟩
  · intro c hc
    cases hc
  · intro x hx
    cases hx

/-- Saves may fail, entries may be evicted, and an acceptor may restart and read back its log. -/
def ReadsLogs (s : Synod cfg) (l : SynodOp cfg) (_ : Synod cfg) : Prop :=
  ∀ acc inst batch lastCommitted fuel, l = .restart acc inst batch lastCommitted fuel →
    ReadsLog batch ((s.accs acc).mngs inst).disk

def isRestart : SynodOp cfg → Bool
  | .restart .. => true
  | _ => false

theorem readsLogs_of_not_restart {s s' : Synod cfg} {l : SynodOp cfg} (h : (!isRestart l) = true) :
    ReadsLogs s l s' := by
  intro acc inst batch lastCommitted fuel hl
  rw [hl] at h
  cases h

theorem Requests.step {l : SynodOp cfg} (h : s.Requests) (hs : s.step l = some s')
    (hlog : ReadsLogs s l s') (hb : ∀ c ∈ s'.bcasts, RequestOk c) : s'.Requests := by
  obtain ⟨new, hg⟩ := step_grows hs
  have hold : ∀ x ∈ s.rsps, ∃ c, s'.AnswerOk x c := by
    intro x hx
    obtain ⟨c, hc⟩ := h.answers x hx
    exact ⟨c, hc.later hg⟩
  refine ⟨hb, fun a j => ?_, ?_⟩
  · obtain ⟨hpos, hown, hempty⟩ := h.accs a j
    cases h.step_mng hs a j with
    | same _ hm => rw [hm]; exact ⟨hpos, hown, hempty⟩
    | served bid saves c hd hc hinst hsv hm =>
      have hok := h.bcast c (List.mem_of_getElem? hc)
      rw [hm]
      exact ⟨hsv.cap ▸ hpos, hsv.ownProposals hown (hok.pinst.trans hinst),
        hsv.emptyPromises hempty hok.prepare⟩
    | restart batch lastCommitted fuel hm =>
      have hf := loadAllFromDisk_fromLog (hlog _ _ _ _ _ rfl) hm
      exact ⟨hf.cap, hown.recovered hf, hempty.recovered hf⟩
  · cases step_net hs with
    | other _ _ hrsps | restart _ _ _ _ _ _ _ _ hrsps =>
      rw [hrsps]
      exact hold
    | deliver bid acc saves c hc _ hrsps hvotes =>
      intro x hx
      rw [hrsps] at hx
      rcases List.mem_append.mp hx with hx | hx
      · exact hold x hx
      · obtain ⟨rsp, hrsp, rfl⟩ := List.mem_map.mp hx
        exact ⟨c, h.answer hc (Option.mem_toList.mp hrsp) hg hvotes⟩

end

end Synod
end Quarrel
