import Quarrel.L4Proposer.Fields
import Quarrel.L5Synod.Rounds

/-!
# The fields of an instance in a synod

What a step of the synod does to the request an instance has outstanding, and to
what it hands out ids from.

* `step_req`: a request that stays outstanding changes in its metadata only, by
  the answers `Merged` describes.
* `Sane.merged`: such an answer is to a broadcast of the instance itself.
* `Sane.step_ids`: who moves the last chosen entry and the id generator.
-/
namespace Quarrel

open InstanceState EntryMng

variable {cfg : Configure}

namespace Synod

/-- By step `l` a callback brings the answer `a` to instance `i` of proposer `k`, and
it may be merged into the request. -/
def Merged (s : Synod cfg) (l : SynodOp cfg) (k : Fin cfg.totalProposer) (i : Nat) (a : PaxosMsg) :
    Prop :=
  ∃ rid x c, l = .reply rid ∧ s.rsps[rid]? = some x ∧ s.bcasts[x.bid]? = some c ∧ c.src = k ∧
    (s.props k).Merges (cfg.on k) (rpcResponseOf c.msg x.msg) i a

section

variable {s s' : Synod cfg} {l : SynodOp cfg} {k : Fin cfg.totalProposer} {i : Nat}
  {q q' a : PaxosMsg}

/-- Proposer `k` alone moves, by a function that leaves the requests but for their metadata. -/
theorem follows_of_update {p' : Proposer} {k₀ : Fin cfg.totalProposer} {merged : PaxosMsg → Prop}
    (hp : s'.props = Function.update s.props k₀ p')
    (hq : (s.props k i).req = some q) (hq' : (s'.props k i).req = some q')
    (hf : k = k₀ → (p' i).req = some q' → ∃ q, (s.props k i).req = some q ∧ Follows merged q q') :
    Follows merged q q' := by
  rw [hp] at hq'
  by_cases hk : k = k₀
  · subst hk
    rw [Function.update_self] at hq'
    obtain ⟨q₁, hq₁, hfol⟩ := hf rfl hq'
    obtain rfl := Option.some.inj (hq.symm.trans hq₁)
    exact hfol
  · rw [Function.update_of_ne hk] at hq'
    obtain rfl := Option.some.inj (hq.symm.trans hq')
    exact Follows.refl _

theorem step_req (h : s.step l = some s') (hq : (s.props k i).req = some q)
    (hq' : (s'.props k i).req = some q') :
    Follows (s.Merged l k i) q q' := by
  cases l with
  | propose k₀ opaqueData val pinst promise oom =>
    obtain rfl := Option.some.inj h
    refine follows_of_update rfl hq hq' ?_
    intro heq hreq
    subst heq
    refine ⟨q', ?_, Follows.refl _⟩
    by_cases hi : i = pinst % (cfg.on k).plogInstNum
    · -- a call is turned down while a request is outstanding
      subst hi
      unfold Proposer.proposeAsync InstanceState.proposeAsync at hreq
      dsimp only at hreq
      rw [Function.update_self, if_pos (by rw [hq]; rfl)] at hreq
      exact hreq
    · unfold Proposer.proposeAsync at hreq
      dsimp only at hreq
      rwa [Function.update_of_ne hi] at hreq
  | entryChosen k₀ msg fromPlog =>
    obtain rfl := Option.some.inj h
    refine follows_of_update rfl hq hq' ?_
    intro heq hreq
    subst heq
    refine ⟨q', ?_, Follows.refl _⟩
    unfold Proposer.onEntryChosen at hreq
    by_cases hi : i = msg.pp.pinst % (cfg.on k).plogInstNum
    · subst hi
      rw [Function.update_self] at hreq
      unfold InstanceState.onEntryChosen at hreq
      split at hreq
      · exact hreq
      · rwa [(updateChosenInfo_keeps _ _ _).req] at hreq
    · rwa [Function.update_of_ne hi] at hreq
  | timeout k₀ term pinst entry =>
    obtain ⟨⟨p', outs⟩, hr, rfl⟩ := Option.map_eq_some_iff.mp h
    refine follows_of_update rfl hq hq' ?_
    intro heq hreq
    subst heq
    obtain ⟨q₁, hq₁, hfol⟩ := Proposer.handleRpcResponse_req hr hreq
    refine ⟨q₁, hq₁, hfol.weaken fun a ha => ?_⟩
    cases ha.msg
  | deliver bid acc saves =>
    simp only [step] at h
    split at h
    · cases h
    · obtain rfl := Option.some.inj h
      obtain rfl := Option.some.inj (hq.symm.trans hq')
      exact Follows.refl _
  | reply rid =>
    simp only [step] at h
    split at h
    · cases h
    rename_i x hx
    split at h
    · cases h
    rename_i c hc
    obtain ⟨⟨p', outs⟩, hr, rfl⟩ := Option.map_eq_some_iff.mp h
    refine follows_of_update rfl hq hq' ?_
    intro heq hreq
    subst heq
    obtain ⟨q₁, hq₁, hfol⟩ := Proposer.handleRpcResponse_req hr hreq
    exact ⟨q₁, hq₁, hfol.weaken fun a ha => ⟨rid, x, c, rfl, hx, hc, rfl, ha⟩⟩
  | restart acc inst batch lastCommitted fuel =>
    obtain ⟨_, _, rfl⟩ := Option.map_eq_some_iff.mp h
    obtain rfl := Option.some.inj (hq.symm.trans hq')
    exact Follows.refl _

/-- What is merged is an answer to a broadcast of the instance itself, in the phase it is in. -/
theorem Sane.merged (h : s.Sane) (hm : s.Merged l k i a) :
    ∃ rid x c, l = .reply rid ∧ s.rsps[rid]? = some x ∧ s.AnswerOk x c ∧ c.Of k i ∧ x.msg = a ∧
      (s.props k i).Awaits c.msg.pp.term ∧
      (((s.props k i).phase = preparingPhase ∧ a.type = .prepareRsp ∧ a.errcode = ErrCode.ok ∧
          a.pp.status = .promised) ∨
        ((s.props k i).phase = acceptingPhase ∧ a.type = .acceptRsp ∧ a.errcode = ErrCode.ok)) := by
  obtain ⟨rid, x, c, hl, hx, hc, rfl, hmsg, hbody, haw, hkind⟩ := hm
  obtain rfl : x.msg = a := Option.some.inj hmsg
  have hok := h.requests.answerOk (List.mem_of_getElem? hx) hc
  have hb := h.bcast (List.mem_of_getElem? hc)
  have herr : x.msg.errcode = ErrCode.ok := hkind.elim (fun hk => hk.2.2.1) fun hk => hk.2.2
  have hpin : x.msg.pp.pinst = c.msg.pp.pinst := hok.pinst.resolve_right fun hne => hne.1 herr
  have hinst : (rpcResponseOf c.msg x.msg).pinst % (cfg.on c.src).plogInstNum = i := by
    show c.msg.pp.pinst % cfg.plogInstNum = i
    rw [← hpin, hbody]
    rw [hpin, hb.pinst] at hbody
    exact Nat.mod_eq_of_lt (hbody ▸ hb.inst_lt)
  rw [hinst] at haw hkind
  exact ⟨rid, x, c, hl, hx, hok, ⟨rfl, hb.pinst.symm.trans (hpin.symm.trans hbody)⟩, rfl, haw,
    hkind⟩

/-! ## The last chosen entry and the id generator -/

/-- Step `l` is a call of instance `i` of proposer `k`. -/
def Calls (l : SynodOp cfg) (k : Fin cfg.totalProposer) (i : Nat) : Prop :=
  ∃ opaqueData val pinst promise oom, l = .propose k opaqueData val pinst promise oom ∧
  i = pinst % cfg.plogInstNum

/-- A call moves its instance, and the message it broadcasts is of the new round. -/
theorem step_propose {opaqueData pinst promise : Nat} {val : List UInt8} {oom : Bool}
    (h : s.step (.propose k opaqueData val pinst promise oom) = some s')
    (hi : i = pinst % cfg.plogInstNum) :
    s'.props k i = ((s.props k i).proposeAsync (cfg.on k) i opaqueData val promise oom).1 ∧
      Grows s s' ((broadcasts ((s.props k i).proposeAsync (cfg.on k) i opaqueData val promise oom).2).map
        fun m => ⟨k, i, (s'.props k i).term, m⟩) := by
  subst hi
  obtain rfl := Option.some.inj h
  have hst : (s.send k ((s.props k).proposeAsync (cfg.on k) opaqueData val pinst promise oom).1 (pinst % cfg.plogInstNum)
      (broadcasts ((s.props k).proposeAsync (cfg.on k) opaqueData val pinst promise oom).2)).props k
        (pinst % cfg.plogInstNum) =
      ((s.props k (pinst % cfg.plogInstNum)).proposeAsync (cfg.on k) (pinst % cfg.plogInstNum) opaqueData val promise
        oom).1 := by
    simp only [send, Proposer.proposeAsync, show (cfg.on k).plogInstNum = cfg.plogInstNum from rfl,
      Function.update_self]
  refine ⟨hst, ?_, fun _ h => h, List.prefix_refl _, fun _ h => h, fun _ h => h⟩
  simp only [send, Proposer.proposeAsync, show (cfg.on k).plogInstNum = cfg.plogInstNum from rfl,
    Function.update_self]

/-- What step `l` does to the last chosen entry and the generator of instance `i` of
proposer `k`. -/
inductive IdStep (s s' : Synod cfg) (l : SynodOp cfg) (k : Fin cfg.totalProposer) (i : Nat) : Prop
  | keeps (hl : ¬ Calls l k i) (h : KeepsIds (s.props k i) (s'.props k i))
      (hreq : ∀ q', (s'.props k i).req = some q' →
        ∃ q, (s.props k i).req = some q ∧ q'.pp.pentry = q.pp.pentry)
  | call (opaqueData : Nat) (val : List UInt8) (pinst promise : Nat) (oom : Bool)
      (hl : l = .propose k opaqueData val pinst promise oom) (hi : i = pinst % cfg.plogInstNum)
      (hst : s'.props k i = ((s.props k i).proposeAsync (cfg.on k) i opaqueData val promise oom).1)
  | told (msg : PaxosMsg) (fromPlog : Bool) (hl : l = .entryChosen k msg fromPlog)
      (hi : i = msg.pp.pinst % cfg.plogInstNum)
      (hst : s'.props k i = (s.props k i).onEntryChosen msg.pp fromPlog)
  | chosen (rid : Nat) (q : PaxosMsg) (x : Answer cfg) (hl : l = .reply rid) (hx : s.Awaited k i x)
      (hph : (s.props k i).phase = acceptingPhase)
      (hq : (s.props k i).req = some q) (hv : ValidAccept q x.msg)
      (hr : Records (s.props k i) (s'.props k i) x.msg.pp.pentry)

theorem idStep_of_same (hl : ¬ Calls l k i) (h : s'.props k i = s.props k i) : IdStep s s' l k i :=
  .keeps hl (h ▸ KeepsIds.refl _) fun q' hq' => ⟨q', h ▸ hq', rfl⟩

theorem idStep_of_response {p' : Proposer} {k₀ : Fin cfg.totalProposer} {m : RpcResponseMsg}
    {outs : List Out} (hl : ¬ Calls l k i) (hp : s'.props = Function.update s.props k₀ p')
    (hr : (s.props k₀).handleRpcResponse (cfg.on k₀) m = some (p', outs))
    (hch : ∀ q a, k = k₀ → (s.props k).Chooses p' (cfg.on k) m i q a →
      ∃ rid x, l = .reply rid ∧ x.msg = a ∧ s.Awaited k i x ∧
      (s.props k i).phase = acceptingPhase) : IdStep s s' l k i := by
  by_cases hk : k = k₀
  · subst hk
    have hst : s'.props k = p' := by rw [hp, Function.update_self]
    rcases Proposer.handleRpcResponse_ids hr i with hkeep | ⟨q, a, hc⟩
    · refine .keeps hl (hst ▸ hkeep) fun q' hq' => ?_
      rw [hst] at hq'
      obtain ⟨q, hq, hf⟩ := Proposer.handleRpcResponse_req hr hq'
      exact ⟨q, hq, hf.same.pentry⟩
    · obtain ⟨rid, x, hrid, rfl, hx, hph⟩ := hch q a rfl hc
      exact .chosen rid q x hrid hx hph hc.req hc.valid (hst ▸ hc.records)
  · exact idStep_of_same hl (by rw [hp, Function.update_of_ne hk])

theorem calls_propose {k₀ : Fin cfg.totalProposer} {opaqueData pinst promise : Nat}
    {val : List UInt8} {oom : Bool} (h : Calls (.propose k₀ opaqueData val pinst promise oom) k i) :
    k = k₀ ∧ i = pinst % cfg.plogInstNum := by
  obtain ⟨_, _, _, _, _, hl, hi⟩ := h
  cases hl
  exact ⟨rfl, hi⟩

theorem Sane.step_ids (h : s.Sane) (hs : s.step l = some s') (k : Fin cfg.totalProposer) (i : Nat) :
    IdStep s s' l k i := by
  have hcall : (∀ k₀ opaqueData val pinst promise oom,
      l ≠ .propose k₀ opaqueData val pinst promise oom) → ¬ Calls l k i :=
    fun hno ⟨_, _, _, _, _, hl, _⟩ => hno _ _ _ _ _ _ hl
  cases l with
  | propose k₀ opaqueData val pinst promise oom =>
    by_cases hk : k = k₀ ∧ i = pinst % cfg.plogInstNum
    · obtain ⟨rfl, hi⟩ := hk
      exact .call opaqueData val pinst promise oom rfl hi (step_propose hs hi).1
    · obtain rfl := Option.some.inj hs
      refine idStep_of_same (fun hc => hk (calls_propose hc)) ?_
      by_cases hkk : k = k₀
      · subst hkk
        simp only [send, Proposer.proposeAsync, Function.update_self]
        exact Function.update_of_ne (fun hi => hk ⟨rfl, hi⟩) _ _
      · exact congrFun (Function.update_of_ne hkk _ _) i
  | entryChosen k₀ msg fromPlog =>
    obtain rfl := Option.some.inj hs
    by_cases hk : k = k₀ ∧ i = msg.pp.pinst % cfg.plogInstNum
    · obtain ⟨rfl, rfl⟩ := hk
      refine .told msg fromPlog rfl rfl ?_
      simp only [Proposer.onEntryChosen, show (cfg.on k).plogInstNum = cfg.plogInstNum from rfl,
        Function.update_self]
    · refine idStep_of_same (hcall (by simp)) ?_
      by_cases hkk : k = k₀
      · subst hkk
        simp only [Proposer.onEntryChosen, Function.update_self]
        exact Function.update_of_ne (fun hi => hk ⟨rfl, hi⟩) _ _
      · exact congrFun (Function.update_of_ne hkk _ _) i
  | timeout k₀ term pinst entry =>
    obtain ⟨⟨p', outs⟩, hr, rfl⟩ := Option.map_eq_some_iff.mp hs
    refine idStep_of_response (hcall (by simp)) rfl hr fun q a _ hc => ?_
    cases hc.msg
  | reply rid =>
    simp only [Synod.step] at hs
    split at hs
    · cases hs
    rename_i x hx
    split at hs
    · cases hs
    rename_i c hc
    obtain ⟨⟨p', outs⟩, hr, rfl⟩ := Option.map_eq_some_iff.mp hs
    refine idStep_of_response (hcall (by simp)) rfl hr ?_
    intro q a heq hch
    subst heq
    obtain rfl : x.msg = a := Option.some.inj hch.msg
    have hm : s.Merged (.reply rid) c.src i x.msg :=
      ⟨rid, x, c, rfl, hx, hc, rfl, hch.msg, hch.body, hch.awaits,
        .inr ⟨hch.phase, hch.valid.type, hch.valid.errcode⟩⟩
    obtain ⟨_, y, d, hl, hy, hans, ho, _, haw, hkind⟩ := h.merged hm
    cases hl
    obtain rfl := Option.some.inj (hx.symm.trans hy)
    obtain rfl := Option.some.inj (hc.symm.trans hans.bcast)
    refine ⟨rid, x, rfl, rfl, ⟨List.mem_of_getElem? hx, c, hc, rfl, ?_, haw⟩, ?_⟩
    · exact (h.bcast (List.mem_of_getElem? hc)).pinst.trans ho.2
    · rcases hkind with ⟨_, ht, _⟩ | ⟨hph, _⟩
      · rw [hch.valid.type] at ht
        cases ht
      · exact hph
  | deliver bid acc saves =>
    simp only [Synod.step] at hs
    split at hs
    · cases hs
    · obtain rfl := Option.some.inj hs
      exact idStep_of_same (hcall (by simp)) rfl
  | restart acc inst batch lastCommitted fuel =>
    obtain ⟨_, _, rfl⟩ := Option.map_eq_some_iff.mp hs
    exact idStep_of_same (hcall (by simp)) rfl

end

end Synod
end Quarrel
