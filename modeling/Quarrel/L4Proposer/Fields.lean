import Quarrel.L3Role.ProposerSpec

/-!
# The fields of an instance

What each function does to the fields that outlive a round, the last chosen entry
and the id generator, and to the request outstanding.

* `KeepsChosen`, `KeepsIds`: calls and responses leave what is recorded of the last
  chosen entry; responses leave the generator or make it jump ahead.
* `proposeAsync_draws`: the entry, the id and the value of a call.
* `handleAcceptRsp_ids`: the one exception, a majority for the own round.
* `Follows`, `handleRpcResponse_req`: a response leaves the request outstanding but
  for its metadata.
* `handleRpcResponse_ids`, `handleRpcResponse_last`: the same of all instances at once.
-/
namespace Quarrel

namespace InstanceState

/-! ## The last chosen entry and the id generator -/

/-- What is recorded of the last chosen entry stays as it is. -/
structure KeepsChosen (s s' : InstanceState) : Prop where
  proposerId : s'.proposerId = s.proposerId
  entry : s'.lastChosenEntry = s.lastChosenEntry
  source : s'.lastChosenFrom = s.lastChosenFrom

/-- And the next id is not taken back. -/
structure KeepsIds (s s' : InstanceState) : Prop extends KeepsChosen s s' where
  ig : s'.ig = s.ig ∨ ∃ v, s'.ig = s.ig.setGreaterThan v

theorem KeepsIds.refl (s : InstanceState) : KeepsIds s s := ⟨⟨rfl, rfl, rfl⟩, .inl rfl⟩

theorem KeepsIds.end {s s' : InstanceState} (h : KeepsIds s s') :
    KeepsIds s { s' with req := none } :=
  ⟨⟨h.proposerId, h.entry, h.source⟩, h.ig⟩

section

variable {cfg : Configure} {s s' s₁ : InstanceState} {q rsp : PaxosMsg} {ret : Int}
  {done first : Bool}
  {outs : List Out}

theorem KeepsIds.prepareOut (h : KeepsIds s s₁) (ho : (s', outs) = s₁.prepareOut ret done first) :
    KeepsIds s s' := prepareOut_keeps ho h h.end

theorem KeepsIds.acceptOut (h : KeepsIds s s₁) (ho : (s', outs) = s₁.acceptOut ret done) :
    KeepsIds s s' := acceptOut_keeps ho h h.end

theorem refused_ids {n v : Nat} {req : Option PaxosMsg} {ig : IdGen}
    (hig : ig = s.ig ∨ ig = s.ig.setGreaterThan v) :
    KeepsIds s { s with rspCount := n, req := req, ig := ig } :=
  ⟨⟨rfl, rfl, rfl⟩, hig.imp id fun h => ⟨v, h⟩⟩

theorem afterPromise_ids : KeepsIds s (s.afterPromise q rsp) := by
  have h := afterPromise_keeps s q rsp
  exact ⟨⟨h.proposerId, h.lastChosenEntry, h.lastChosenFrom⟩, .inl h.ig⟩

/-- A call hands out an id only with a round it starts for a value. -/
theorem proposeAsync_chosen (cfg : Configure) (s : InstanceState) (i opaqueData : Nat)
    (val : List UInt8)
    (promise : Nat) (oom : Bool) : KeepsChosen s (s.proposeAsync cfg i opaqueData val promise oom).1 := by
  have hd := proposeAsync_done cfg s i opaqueData val promise oom
  generalize s.proposeAsync cfg i opaqueData val promise oom = r at hd
  obtain ⟨s', outs⟩ := r
  cases hd with
  | rejected => exact ⟨rfl, rfl, rfl⟩
  | prepare => exact ⟨rfl, rfl, rfl⟩
  | fast => exact ⟨rfl, rfl, rfl⟩

/-- A call starts the round of `m` for the entry after the last chosen one; a value
that the length field does not take for empty draws an id. -/
structure Draws (cfg : Configure) (s s' : InstanceState) (i : Nat) (val : List UInt8)
    (m : PaxosMsg) : Prop where
  idle : s.req = none
  entry : s'.lastChosenEntry = s.lastChosenEntry
  term : s'.term = s.term + 1
  ig : s'.ig = if u32 val.length ≠ 0 then s.ig.getAndInc.2 else s.ig
  req : ∃ q, s'.req = some q ∧ Same q.pp m.pp ∧ q.pp.data = val ∧ q.pp.size = u32 val.length
  accept : m.type = .acceptReq → s'.req = some m ∧ val ≠ []
  pinst : m.pp.pinst = i
  pentry : m.pp.pentry = s.lastChosenEntry + 1
  pid : m.pp.pid = if u32 val.length ≠ 0 then s.ig.id ||| cfg.pidCookie else 0

theorem proposeAsync_draws (cfg : Configure) (s : InstanceState) (i opaqueData : Nat)
    (val : List UInt8) (promise : Nat) (oom : Bool) :
    ((s.proposeAsync cfg i opaqueData val promise oom).1 = s ∧
        broadcasts (s.proposeAsync cfg i opaqueData val promise oom).2 = []) ∨
      ∃ m, broadcasts (s.proposeAsync cfg i opaqueData val promise oom).2 = [m] ∧
        Draws cfg s (s.proposeAsync cfg i opaqueData val promise oom).1 i val m := by
  have hd := proposeAsync_done cfg s i opaqueData val promise oom
  generalize s.proposeAsync cfg i opaqueData val promise oom = r at hd
  obtain ⟨s', outs⟩ := r
  cases hd with
  | rejected => exact .inl ⟨rfl, rfl⟩
  | prepare m hidle hm =>
    have hvalue : m.pp.data = val ∧ m.pp.size = u32 val.length := by
      rw [hm]
      exact ⟨rfl, rfl⟩
    refine .inr ⟨asPrepareReq m, rfl, hidle, rfl, rfl, rfl, ⟨m, rfl, ⟨rfl, rfl, rfl, rfl⟩, hvalue⟩,
      fun ht => ?_, ?_, ?_, ?_⟩
    · rw [hm] at ht
      cases ht
    all_goals
      rw [hm]
      rfl
  | fast m hidle hm hval =>
    have hvalue : m.pp.data = val ∧ m.pp.size = u32 val.length := by
      rw [hm]
      exact ⟨rfl, rfl⟩
    refine .inr ⟨m, rfl, hidle, rfl, rfl, rfl, ⟨m, rfl, Same.refl _, hvalue⟩,
      fun _ => ⟨rfl, by simpa using hval⟩, ?_, ?_, ?_⟩
    all_goals
      rw [hm]
      rfl

theorem handlePrepareRsp_ids (h : s.handlePrepareRsp cfg rsp = some (s', outs)) :
    KeepsIds s s' := by
  cases hq : s.req with
  | none =>
    unfold handlePrepareRsp at h
    rw [hq] at h
    cases h
    exact KeepsIds.refl s
  | some q =>
    have hafter : KeepsIds s (s.afterPromise q rsp) := afterPromise_ids
    cases handlePrepareRsp_done hq h with
    | wrongType => exact KeepsIds.refl s
    | refused _ _ _ _ _ _ _ hig ho => exact (refused_ids hig).prepareOut ho
    | pending _ _ _ ho => exact hafter.prepareOut ho
    | probed _ _ _ _ _ ho => exact hafter.prepareOut ho
    | accepting m _ _ _ _ _ _ hs _ =>
      rw [hs]
      exact ⟨⟨hafter.proposerId, hafter.entry, hafter.source⟩, hafter.ig⟩

/-- A chosen entry is not recorded, or is with the proposer it is from. -/
theorem updateChosenInfo_cases (s : InstanceState) (chosen source : Nat) :
    ((chosen = 0 ∨ chosen = noEntry ∨ chosen < s.lastChosenEntry) ∧
      s.updateChosenInfo chosen source = s) ∨
      (chosen ≠ 0 ∧ chosen ≠ noEntry ∧ s.lastChosenEntry ≤ chosen ∧
        s.updateChosenInfo chosen source = { s with
          ig := s.ig.reset (s.proposerId + 1), lastChosenEntry := chosen,
          lastChosenFrom := u32 source }) := by
  unfold updateChosenInfo
  split
  · rename_i h
    exact .inl ⟨h.elim .inl fun h => .inr (.inl h), rfl⟩
  · rename_i h
    rw [not_or] at h
    split
    · rename_i hlt
      exact .inl ⟨.inr (.inr hlt), rfl⟩
    · rename_i hlt
      exact .inr ⟨h.1, h.2, Nat.not_lt.mp hlt, rfl⟩

/-- The round is over: the entry `e` is recorded as the last chosen one, and the ids
start again. -/
structure Records (s s' : InstanceState) (e : Nat) : Prop where
  proposerId : s'.proposerId = s.proposerId
  le : s.lastChosenEntry ≤ e
  entry : s'.lastChosenEntry = e
  ig : s'.ig = s.ig.reset (s.proposerId + 1)
  req : s'.req = none

/-- Only a majority for the instance's own round records a chosen entry, and the
entry is broadcast. -/
theorem handleAcceptRsp_ids (h : s.handleAcceptRsp cfg rsp = (s', outs)) :
    KeepsIds s s' ∨ (Records s s' rsp.pp.pentry ∧ asChosenReq cfg rsp ∈ broadcasts outs ∧
      ∃ q, s.req = some q ∧ ValidAccept q rsp) := by
  cases hq : s.req with
  | none =>
    unfold handleAcceptRsp at h
    rw [hq] at h
    cases h
    exact .inl (KeepsIds.refl s)
  | some q =>
    cases handleAcceptRsp_done hq h with
    | wrongType => exact .inl (KeepsIds.refl s)
    | refused _ _ _ _ _ _ _ hig ho => exact .inl ((refused_ids hig).acceptOut ho)
    | pending _ _ ho =>
      have hafter : KeepsIds s (s.afterAccept q rsp) := ⟨⟨rfl, rfl, rfl⟩, .inl rfl⟩
      exact .inl (hafter.acceptOut ho)
    | chosen hv _ hs ho =>
      rcases updateChosenInfo_cases (s.afterAccept q rsp) rsp.pp.pentry rsp.pp.proposer
          with ⟨_, hu⟩ | ⟨_, _, hle, hu⟩
      · rw [hu] at hs
        exact .inl (hs ▸ ⟨⟨rfl, rfl, rfl⟩, .inl rfl⟩)
      · rw [hu] at hs
        refine .inr ⟨⟨by rw [hs]; rfl, hle, by rw [hs], by rw [hs]; rfl, by rw [hs]⟩, ?_, q, rfl, hv⟩
        rw [ho]
        exact List.mem_cons_self ..

end

/-! ## The request outstanding -/

/-- `q'` is the request `q`, perhaps with the metadata of answers that meet `merged`. -/
structure Follows (merged : PaxosMsg → Prop) (q q' : PaxosMsg) : Prop where
  same : Same q'.pp q.pp
  data : q'.pp.data = q.pp.data
  size : q'.pp.size = q.pp.size
  term : q'.pp.term = q.pp.term ∨ ∃ a, merged a ∧ q'.pp.term = max q.pp.term a.pp.term

section

variable {cfg : Configure} {s s' s₁ : InstanceState} {q q' rsp : PaxosMsg} {ret : Int}
  {done first : Bool}
  {outs : List Out} {merged : PaxosMsg → Prop}

theorem Follows.refl (q : PaxosMsg) : Follows merged q q := ⟨Same.refl _, rfl, rfl, .inl rfl⟩

theorem Follows.weaken {merged' : PaxosMsg → Prop} (h : Follows merged q q')
    (hm : ∀ a, merged a → merged' a) :
    Follows merged' q q' :=
  ⟨h.same, h.data, h.size, h.term.imp id fun ⟨a, ha, ht⟩ => ⟨a, hm a ha, ht⟩⟩

theorem merge_follows (hm : merged rsp) : Follows merged q (merge q rsp) := by
  refine ⟨⟨rfl, rfl, rfl, rfl⟩, rfl, rfl, .inr ⟨rsp, hm, ?_⟩⟩
  show (if rsp.pp.term > q.pp.term then rsp.pp.term else q.pp.term) = _
  split <;> omega

theorem Follows.asAccept (h : Follows merged q q') : Follows merged q (asAcceptReq cfg s q') :=
  ⟨⟨h.same.pid, h.same.valueId, h.same.pinst, h.same.pentry⟩, h.data, h.size, h.term⟩

theorem prepareOut_req (ho : (s', outs) = s₁.prepareOut ret done first) (hq' : s'.req = some q') :
    s₁.req = some q' := by
  rw [prepareOut_state ho] at hq'
  split at hq'
  · cases hq'
  · exact hq'

theorem acceptOut_req (ho : (s', outs) = s₁.acceptOut ret done) (hq' : s'.req = some q') :
    s₁.req = some q' := by
  rw [acceptOut_state ho] at hq'
  split at hq'
  · cases hq'
  · exact hq'

/-- An answer that failed, or that promises nothing, is not merged. -/
theorem handlePrepareRsp_unmerged (hq : s.req = some q)
    (hno : ¬ (rsp.errcode = ErrCode.ok ∧ rsp.pp.status = .promised))
    (h : s.handlePrepareRsp cfg rsp = some (s', outs)) (hq' : s'.req = some q') : q' = q := by
  unfold handlePrepareRsp at h
  rw [hq] at h
  dsimp only at h
  split at h
  · cases h
    exact Option.some.inj (hq'.symm.trans hq)
  split at h
  · have hreq := prepareOut_req (Option.some.inj h).symm hq'
    exact (Option.some.inj hreq).symm
  rename_i he
  split at h
  · have hreq := prepareOut_req (Option.some.inj h).symm hq'
    exact (Option.some.inj hreq).symm
  rename_i hst
  exact absurd ⟨not_not.mp he, not_not.mp hst⟩ hno

theorem handleAcceptRsp_unmerged (hq : s.req = some q) (hno : rsp.errcode ≠ ErrCode.ok)
    (h : s.handleAcceptRsp cfg rsp = (s', outs)) (hq' : s'.req = some q') : q' = q := by
  unfold handleAcceptRsp at h
  rw [hq] at h
  dsimp only at h
  rw [if_pos hno] at h
  split at h
  · have hreq := acceptOut_req h.symm hq'
    exact Option.some.inj (hreq.symm.trans hq)
  · have hreq := acceptOut_req h.symm hq'
    exact (Option.some.inj hreq).symm

theorem handlePrepareRsp_req (h : s.handlePrepareRsp cfg rsp = some (s', outs)) (hq' : s'.req = some q') :
    ∃ q, s.req = some q ∧
      Follows (fun a => a = rsp ∧ a.type = .prepareRsp ∧ a.errcode = ErrCode.ok ∧
        a.pp.status = .promised) q q' := by
  cases hq : s.req with
  | none =>
    unfold handlePrepareRsp at h
    rw [hq] at h
    cases h
    rw [hq] at hq'
    cases hq'
  | some q =>
    refine ⟨q, rfl, ?_⟩
    by_cases hp : rsp.errcode = ErrCode.ok ∧ rsp.pp.status = .promised
    · have hreq := afterPromise_req s q rsp
      cases handlePrepareRsp_done hq h with
      | wrongType _ =>
        rw [hq] at hq'
        exact Option.some.inj hq' ▸ Follows.refl _
      | refused _ req' _ ht _ _ hreq' _ ho =>
        obtain rfl := Option.some.inj (prepareOut_req ho hq')
        rcases hreq' with rfl | rfl
        · exact Follows.refl _
        · exact merge_follows ⟨rfl, ht, hp⟩
      | pending hv _ _ ho =>
        rw [prepareOut_req ho hq'] at hreq
        obtain rfl := Option.some.inj hreq
        exact merge_follows ⟨rfl, hv.type, hp⟩
      | probed hv _ _ _ _ ho =>
        rw [prepareOut_req ho hq'] at hreq
        obtain rfl := Option.some.inj hreq
        exact merge_follows ⟨rfl, hv.type, hp⟩
      | accepting m hv _ _ _ _ hm hs _ =>
        rw [hs] at hq'
        unfold enterAccept at hq'
        unfold acceptSource at hm
        dsimp only at hq'
        split at hq'
        · obtain rfl := Option.some.inj hq'
          exact merge_follows ⟨rfl, hv.type, hp⟩
        · rename_i hn
          rw [if_neg hn] at hm
          obtain rfl := Option.some.inj hm
          obtain rfl := Option.some.inj hq'
          exact (merge_follows ⟨rfl, hv.type, hp⟩).asAccept
    · rw [handlePrepareRsp_unmerged hq hp h hq']
      exact Follows.refl _

theorem handleAcceptRsp_req (h : s.handleAcceptRsp cfg rsp = (s', outs)) (hq' : s'.req = some q') :
    ∃ q, s.req = some q ∧
    Follows (fun a => a = rsp ∧ a.type = .acceptRsp ∧ a.errcode = ErrCode.ok) q q' := by
  cases hq : s.req with
  | none =>
    unfold handleAcceptRsp at h
    rw [hq] at h
    cases h
    rw [hq] at hq'
    cases hq'
  | some q =>
    refine ⟨q, rfl, ?_⟩
    by_cases he : rsp.errcode = ErrCode.ok
    · cases handleAcceptRsp_done hq h with
      | wrongType _ =>
        rw [hq] at hq'
        exact Option.some.inj hq' ▸ Follows.refl _
      | refused _ req' _ ht _ _ hreq' _ ho =>
        obtain rfl := Option.some.inj (acceptOut_req ho hq')
        rcases hreq' with rfl | rfl
        · exact Follows.refl _
        · exact merge_follows ⟨rfl, ht, he⟩
      | pending hv _ ho =>
        obtain rfl := Option.some.inj (acceptOut_req ho hq')
        exact merge_follows ⟨rfl, hv.type, he⟩
      | chosen _ _ hs _ =>
        rw [hs] at hq'
        cases hq'
    · rw [handleAcceptRsp_unmerged hq he h hq']
      exact Follows.refl _

end

end InstanceState

open InstanceState

/-- The answer `a` brought by `m` may be merged into the request of instance `j`: its
round is the one outstanding, and it is a promise, or an answer to the ACCEPT. -/
structure Proposer.Merges (p : Proposer) (cfg : Configure) (m : RpcResponseMsg) (j : Nat)
    (a : PaxosMsg) : Prop where
  msg : m.msg = some a
  body : a.pp.pinst = j
  awaits : (p (m.pinst % cfg.plogInstNum)).Awaits m.term
  kind : ((p (m.pinst % cfg.plogInstNum)).phase = preparingPhase ∧ a.type = .prepareRsp ∧
      a.errcode = ErrCode.ok ∧
      a.pp.status = .promised) ∨
    ((p (m.pinst % cfg.plogInstNum)).phase = acceptingPhase ∧ a.type = .acceptRsp ∧
      a.errcode = ErrCode.ok)

/-- A response leaves every request outstanding as it is but for its metadata. -/
theorem Proposer.handleRpcResponse_req {cfg : Configure} {p p' : Proposer} {m : RpcResponseMsg}
    {outs : List Out}
    (h : p.handleRpcResponse cfg m = some (p', outs)) {j : Nat} {q' : PaxosMsg}
    (hq' : (p' j).req = some q') :
    ∃ q, (p j).req = some q ∧ Follows (p.Merges cfg m j) q q' := by
  have hsame : ∀ {st : InstanceState}, st.req = some q' →
      ∃ q, st.req = some q ∧ Follows (p.Merges cfg m j) q q' := fun hq => ⟨q', hq, Follows.refl _⟩
  have hupd : ∀ {i : Nat} {st : InstanceState} (P : PaxosMsg → Prop),
      (i = j → st.req = some q' → ∃ q, (p i).req = some q ∧ Follows P q q') →
      (∀ a, i = j → P a → p.Merges cfg m j a) → (Function.update p i st j).req = some q' →
      ∃ q, (p j).req = some q ∧ Follows (p.Merges cfg m j) q q' := by
    intro i st P hst hP hj'
    by_cases hj : i = j
    · subst hj
      rw [Function.update_self] at hj'
      obtain ⟨q, hq, hf⟩ := hst rfl hj'
      exact ⟨q, hq, hf.weaken fun a => hP a rfl⟩
    · rw [Function.update_of_ne (Ne.symm hj)] at hj'
      exact hsame hj'
  cases Proposer.handleRpcResponse_done h with
  | late | phaseless => exact hsame hq'
  | timeout => exact hupd (fun _ => False) (fun _ hst => by cases hst) (fun _ _ => False.elim) hq'
  | prepare rsp haw hmsg hph hs =>
    refine hupd _ (fun _ => handlePrepareRsp_req hs) (fun a hj hmerged => ?_) hq'
    obtain ⟨rfl, hkind⟩ := hmerged
    exact ⟨hmsg, hj, haw, .inl ⟨hph, hkind⟩⟩
  | accept rsp haw hmsg hph hs =>
    refine hupd _ (fun _ => handleAcceptRsp_req hs) (fun a hj hmerged => ?_) hq'
    obtain ⟨rfl, hkind⟩ := hmerged
    exact ⟨hmsg, hj, haw, .inr ⟨hph, hkind⟩⟩

/-- The answer brought by `m` completes the majority for the round of instance `j`, and
its entry is recorded. -/
structure Proposer.Chooses (p p' : Proposer) (cfg : Configure) (m : RpcResponseMsg) (j : Nat)
    (q a : PaxosMsg) : Prop where
  msg : m.msg = some a
  body : a.pp.pinst = j
  awaits : (p (m.pinst % cfg.plogInstNum)).Awaits m.term
  phase : (p (m.pinst % cfg.plogInstNum)).phase = acceptingPhase
  req : (p j).req = some q
  valid : ValidAccept q a
  records : Records (p j) (p' j) a.pp.pentry

/-- A response leaves what is recorded of the last chosen entry and does not take ids
back, or it completes a majority. -/
theorem Proposer.handleRpcResponse_ids {cfg : Configure} {p p' : Proposer} {m : RpcResponseMsg}
    {outs : List Out} (h : p.handleRpcResponse cfg m = some (p', outs)) (j : Nat) :
    KeepsIds (p j) (p' j) ∨ ∃ q a, p.Chooses p' cfg m j q a := by
  cases Proposer.handleRpcResponse_done h with
  | late | phaseless => exact .inl (KeepsIds.refl _)
  | timeout =>
    have hkeep : KeepsIds (p (m.pinst % cfg.plogInstNum))
        (p (m.pinst % cfg.plogInstNum)).handleTimeout.1 := ⟨⟨rfl, rfl, rfl⟩, .inl rfl⟩
    exact .inl (update_keeps KeepsIds.refl hkeep j)
  | prepare rsp haw hmsg hph hs => exact .inl (update_keeps KeepsIds.refl (handlePrepareRsp_ids hs) j)
  | accept rsp haw hmsg hph hs =>
    rcases handleAcceptRsp_ids hs with hk | ⟨hr, -, q, hq, hv⟩
    · exact .inl (update_keeps KeepsIds.refl hk j)
    by_cases hj : j = rsp.pp.pinst
    · subst hj
      exact .inr ⟨q, rsp, hmsg, rfl, haw, hph, hq, hv, by rw [Function.update_self]; exact hr⟩
    · rw [Function.update_of_ne hj]
      exact .inl (KeepsIds.refl _)

/-- The last chosen entry moves to one that is broadcast as chosen. -/
theorem Proposer.handleRpcResponse_last {cfg : Configure} {p p' : Proposer} {m : RpcResponseMsg}
    {outs : List Out} (h : p.handleRpcResponse cfg m = some (p', outs)) (j : Nat) :
    (p' j).lastChosenEntry = (p j).lastChosenEntry ∨ ∃ a, m.msg = some a ∧ a.pp.pinst = j ∧
      (p' j).lastChosenEntry = a.pp.pentry ∧ asChosenReq cfg a ∈ broadcasts outs := by
  rcases Proposer.handleRpcResponse_ids h j with hk | ⟨q, a, hc⟩
  · exact .inl hk.entry
  cases Proposer.handleRpcResponse_done h with
  | late | phaseless => exact .inl rfl
  | timeout _ hn =>
    rw [hc.msg] at hn
    cases hn
  | prepare _ _ _ hph _ =>
    rw [hc.phase] at hph
    cases hph
  | accept rsp haw hmsg hph hs =>
    rcases handleAcceptRsp_ids hs with hk | ⟨hr, hsent, -⟩
    · exact .inl (update_keeps KeepsIds.refl hk j).entry
    · obtain rfl := Option.some.inj (hmsg.symm.trans hc.msg)
      exact .inr ⟨rsp, hmsg, hc.body, hc.records.entry, hsent⟩

end Quarrel
