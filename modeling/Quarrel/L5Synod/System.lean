import Quarrel.Core.LTS
import Quarrel.Core.Quorum
import Quarrel.L4Acceptor.Run
import Quarrel.L4Proposer.Moves

/-!
# A synod

The proposers of a synod, its acceptors and the network between them. A message
broadcast stays deliverable to every acceptor for ever, any number of times, and
an answer stays deliverable to its callback: messages are lost, delayed,
duplicated and reordered at will.

Three lists record what has happened, and no step reads them: `called` the
callbacks invoked, `counted` the valid PREPARE answers the proposers have counted,
`votes` the proposals the acceptors have stored as accepted.

* `Synod.step`: the transitions. A proposer whose process dies makes none.
* `step_inst`: what a step does to one instance of one proposer.
-/
namespace Quarrel

open InstanceState EntryMng

/-- A message handed to every connection, with the proposer, the instance and the
round (the number of the instance's calls so far) it comes from. -/
structure Bcast (cfg : Configure) where
  src : Fin cfg.totalProposer
  inst : Nat
  round : Nat
  msg : PaxosMsg
  deriving DecidableEq

/-- An acceptor's answer to broadcast number `bid`. -/
structure Answer (cfg : Configure) where
  bid : Nat
  acc : Fin cfg.totalAcceptor
  msg : PaxosMsg

/-- The acceptor has stored the proposal as accepted. -/
structure Vote (cfg : Configure) where
  acc : Fin cfg.totalAcceptor
  inst : Nat
  entry : Nat
  pid : Nat
  valueId : Nat
  deriving DecidableEq

/-- The proposer has counted a valid PREPARE answer of the acceptor. -/
structure Promise (cfg : Configure) where
  src : Fin cfg.totalProposer
  inst : Nat
  entry : Nat
  pid : Nat
  acc : Fin cfg.totalAcceptor
  deriving DecidableEq

structure Synod (cfg : Configure) where
  props : Fin cfg.totalProposer → Proposer
  accs : Fin cfg.totalAcceptor → Acceptor
  bcasts : List (Bcast cfg)
  rsps : List (Answer cfg)
  called : List (Nat × Fin cfg.totalAcceptor)
  counted : List (Promise cfg)
  votes : List (Vote cfg)

inductive SynodOp (cfg : Configure) where
  | propose (k : Fin cfg.totalProposer) (opaqueData : Nat) (val : List UInt8) (pinst promise : Nat)
      (oom : Bool)
  | entryChosen (k : Fin cfg.totalProposer) (msg : PaxosMsg) (fromPlog : Bool)
  | timeout (k : Fin cfg.totalProposer) (term pinst entry : Nat)
  | deliver (bid : Nat) (acc : Fin cfg.totalAcceptor) (saves : Saves)
  | reply (rid : Nat)
  | restart (acc : Fin cfg.totalAcceptor) (inst : Nat) (batch : Batch)
      (lastCommitted : Except Int Nat) (fuel : Nat)

namespace Synod

variable {cfg : Configure}

/-- Proposer `k` is in state `p`, and its instance `i` has broadcast `msgs`. -/
def send (s : Synod cfg) (k : Fin cfg.totalProposer) (p : Proposer) (i : Nat)
    (msgs : List PaxosMsg) :
    Synod cfg :=
  { s with
    props := Function.update s.props k p
    bcasts := s.bcasts ++ msgs.map fun m => ⟨k, i, (p i).term, m⟩ }

/-- The acceptor holds the proposal as the accepted one of its entry. -/
def Holds (cfg : Configure) (a : Acceptor) (pp : Proposal) : Prop :=
  ∃ x q, (a.mngs (cfg.mngOf pp.pinst)).disk pp.pentry = some x ∧ x.accepted = some q ∧
  q.pid = pp.pid ∧
    q.valueId = pp.valueId

instance (cfg : Configure) (a : Acceptor) (pp : Proposal) : Decidable (Holds cfg a pp) :=
  match hx : (a.mngs (cfg.mngOf pp.pinst)).disk pp.pentry with
  | none => isFalse fun ⟨_, _, h, _⟩ => by rw [hx] at h; cases h
  | some x =>
    match hq : x.accepted with
    | none => isFalse fun ⟨_, _, h, h', _⟩ => by
      rw [hx] at h
      rw [← Option.some.inj h, hq] at h'
      cases h'
    | some q =>
      if h : q.pid = pp.pid ∧ q.valueId = pp.valueId then isTrue ⟨x, q, hx, hq, h⟩
      else isFalse fun ⟨_, _, h1, h2, h3⟩ => by
        rw [hx] at h1
        rw [← Option.some.inj h1, hq] at h2
        exact h (Option.some.inj h2 ▸ h3)

/-- The vote recorded when acceptor `acc`, now in state `a`, has handled `msg`. -/
def voteOf (acc : Fin cfg.totalAcceptor) (a : Acceptor) (msg : PaxosMsg) : List (Vote cfg) :=
  if msg.type = .acceptReq ∧ Holds cfg a msg.pp then
    [⟨acc, msg.pp.pinst, msg.pp.pentry, msg.pp.pid, msg.pp.valueId⟩]
  else []

/-- The promise recorded when an instance in state `st` handles the answer `rsp`. -/
def countedOf (st : InstanceState) (k : Fin cfg.totalProposer) (term : Nat)
    (acc : Fin cfg.totalAcceptor) (rsp : PaxosMsg) : List (Promise cfg) :=
  match st.req with
  | none => []
  | some q =>
    if st.Awaits term ∧ st.phase = preparingPhase ∧ ValidPromise q rsp then
      [⟨k, q.pp.pinst, q.pp.pentry, q.pp.pid, acc⟩]
    else []

def step (s : Synod cfg) : SynodOp cfg → Option (Synod cfg)
  | .propose k opaqueData val pinst promise oom =>
    let r := (s.props k).proposeAsync (cfg.on k) opaqueData val pinst promise oom
    some (s.send k r.1 (pinst % cfg.plogInstNum) (broadcasts r.2))
  | .entryChosen k msg fromPlog =>
    some { s with props := Function.update s.props k ((s.props k).onEntryChosen (cfg.on k) msg fromPlog) }
  | .timeout k term pinst entry =>
    ((s.props k).handleRpcResponse (cfg.on k) ⟨term, pinst, entry, none⟩).map fun r =>
      s.send k r.1 (pinst % cfg.plogInstNum) (broadcasts r.2)
  | .deliver bid acc saves =>
    match s.bcasts[bid]? with
    | none => none
    | some c =>
      let r := (s.accs acc).doHandleMsg (cfg.on acc) saves c.msg
      some { s with
        accs := Function.update s.accs acc r.2
        rsps := s.rsps ++ r.1.toList.map fun rsp => ⟨bid, acc, rsp⟩
        votes := s.votes ++ voteOf acc r.2 c.msg }
  | .reply rid =>
    match s.rsps[rid]? with
    | none => none
    | some x =>
      match s.bcasts[x.bid]? with
      | none => none
      | some c =>
        ((s.props c.src).handleRpcResponse (cfg.on c.src) (rpcResponseOf c.msg x.msg)).map fun r =>
          { s.send c.src r.1 x.msg.pp.pinst (broadcasts r.2) with
            called := s.called ++ [(x.bid, x.acc)]
            counted := s.counted ++
              countedOf (s.props c.src x.msg.pp.pinst) c.src c.msg.pp.term x.acc x.msg }
  | .restart acc inst batch lastCommitted fuel =>
    ((s.accs acc).step (cfg.on acc) (.restart inst batch lastCommitted fuel)).map fun a =>
      { s with accs := Function.update s.accs acc a }

/-- Proposers and acceptors just started, the acceptors over empty storages. -/
def start (cfg : Configure) (sec : Fin cfg.totalProposer → Nat) : Synod cfg where
  props k := Proposer.new (cfg.on k) (sec k)
  accs a := Acceptor.new (cfg.on a) fun _ _ => none
  bcasts := []
  rsps := []
  called := []
  counted := []
  votes := []

def sys (cfg : Configure) : LTS (Synod cfg) (SynodOp cfg) :=
  .ofFn (fun s => ∃ sec, s = start cfg sec) step

/-! ## What a step does to one instance -/

/-- The records grow; `new` is broadcast. -/
structure Grows (s s' : Synod cfg) (new : List (Bcast cfg)) : Prop where
  bcasts : s'.bcasts = s.bcasts ++ new
  rsps : s.rsps ⊆ s'.rsps
  called : s.called <+: s'.called
  counted : s.counted ⊆ s'.counted
  votes : s.votes ⊆ s'.votes

/-- The instance waits for the broadcast that `x` answers. -/
structure Awaited (s : Synod cfg) (k : Fin cfg.totalProposer) (i : Nat) (x : Answer cfg) :
    Prop where
  mem : x ∈ s.rsps
  bcast : ∃ c, s.bcasts[x.bid]? = some c ∧ c.src = k ∧ c.msg.pp.pinst = i ∧
    (s.props k i).Awaits c.msg.pp.term

/-- The answer `x` reaches the instance that waits for it, by a callback of `s` to `s'`. -/
structure Reaches (s s' : Synod cfg) (k : Fin cfg.totalProposer) (i : Nat) (x : Answer cfg) :
    Prop where
  awaited : s.Awaited k i x
  called : s'.called = s.called ++ [(x.bid, x.acc)]

/-- Step `l` causes the event `ev` at instance `i` of proposer `k`. -/
structure Causes (s s' : Synod cfg) (l : SynodOp cfg) (k : Fin cfg.totalProposer) (i : Nat)
    (ev : Event) :
    Prop where
  answer : ∀ rsp, ev = .answer rsp → ∃ x, x.msg = rsp ∧ Reaches s s' k i x
  call : ∀ opaqueData val, ev = .call opaqueData val →
    ∃ pinst promise oom, l = .propose k opaqueData val pinst promise oom ∧
      i = pinst % cfg.plogInstNum

/-- What step `l` does to instance `i` of proposer `k`. -/
inductive InstStep (s s' : Synod cfg) (l : SynodOp cfg) (k : Fin cfg.totalProposer) (i : Nat) : Prop
  | same (new : List (Bcast cfg)) (hg : Grows s s' new) (hst : s'.props k i = s.props k i)
      (hnew : ∀ c ∈ new, ¬ (c.src = k ∧ c.inst = i))
  | moved (ev : Event) (sent : List PaxosMsg)
      (hg : Grows s s' (sent.map fun m => ⟨k, i, (s'.props k i).term, m⟩))
      (hc : Causes s s' l k i ev)
      (hm : Moved (cfg.on k) i (s.props k i) ev (s'.props k i) sent)

/-- What the proposers rely on in an answer. -/
structure Fair (s : Synod cfg) (x : Answer cfg) : Prop where
  bcast : ∃ c, s.bcasts[x.bid]? = some c ∧ c.msg.pp.pinst < cfg.plogInstNum ∧
    (x.msg.pp.pinst = c.msg.pp.pinst ∨ (x.msg.errcode ≠ ErrCode.ok ∧ x.msg.type = .acceptRsp))
  empty : x.msg.type = .prepareRsp → x.msg.pp.status = .promised → x.msg.pp.size = 0

theorem causes_notice (s s' : Synod cfg) (l : SynodOp cfg) (k : Fin cfg.totalProposer) (i : Nat) :
    Causes s s' l k i .notice :=
  ⟨(fun _ h => by cases h), fun _ _ h => by cases h⟩

theorem instStep_of_moved {s s' : Synod cfg} {l : SynodOp cfg} {k : Fin cfg.totalProposer} {j : Nat}
    {st : InstanceState} {ev : Event} {sent : List PaxosMsg}
    (hp : s'.props = Function.update s.props k (Function.update (s.props k) j st))
    (hg : Grows s s' (sent.map fun m => ⟨k, j, st.term, m⟩))
    (hc : Causes s s' l k j ev) (hm : Moved (cfg.on k) j (s.props k j) ev st sent)
    (k' : Fin cfg.totalProposer) (i : Nat) : InstStep s s' l k' i := by
  by_cases hk : k' = k ∧ i = j
  · obtain ⟨rfl, rfl⟩ := hk
    have hst : s'.props k' i = st := by rw [hp, Function.update_self, Function.update_self]
    exact .moved ev sent (hst.symm ▸ hg) hc (hst.symm ▸ hm)
  · refine .same _ hg ?_ fun c hc => ?_
    · rw [hp]
      by_cases hkk : k' = k
      · subst hkk
        rw [Function.update_self, Function.update_of_ne fun h => hk ⟨rfl, h⟩]
      · rw [Function.update_of_ne hkk]
    · obtain ⟨m, _, rfl⟩ := List.mem_map.mp hc
      exact fun h => hk ⟨h.1.symm, h.2.symm⟩

theorem instStep_of_kept {s s' : Synod cfg} {l : SynodOp cfg} {k : Fin cfg.totalProposer} {j : Nat}
    {st : InstanceState}
    (hp : s'.props = Function.update s.props k (Function.update (s.props k) j st))
    (hg : Grows s s' [])
    (hm : Kept 0 (s.props k j) st) (k' : Fin cfg.totalProposer) (i : Nat) :
    InstStep s s' l k' i := by
  have hg' : Grows s s' (([] : List PaxosMsg).map fun m => ⟨k, j, st.term, m⟩) := hg
  exact instStep_of_moved hp hg' (causes_notice s s' l k j) (.kept hm) k' i

theorem instStep_of_same {s s' : Synod cfg} {l : SynodOp cfg} (hp : s'.props = s.props)
    (hg : Grows s s' []) (k : Fin cfg.totalProposer) (i : Nat) : InstStep s s' l k i :=
  .same [] hg (by rw [hp]) fun _ h => by cases h

theorem grows_of_same {s s' : Synod cfg} (hb : s'.bcasts = s.bcasts) (hr : s'.rsps = s.rsps)
    (hca : s'.called = s.called) (hco : s'.counted = s.counted) (hv : s'.votes = s.votes) :
    Grows s s' [] := by
  refine ⟨by rw [hb, List.append_nil], ?_, ?_, ?_, ?_⟩
  · rw [hr]
    exact fun _ h => h
  · rw [hca]
  · rw [hco]
    exact fun _ h => h
  · rw [hv]
    exact fun _ h => h

theorem send_nil (s : Synod cfg) (k : Fin cfg.totalProposer) (p : Proposer) (i : Nat) :
    Grows s (s.send k p i []) [] :=
  grows_of_same (List.append_nil _) rfl rfl rfl rfl

/-- A callback moves the instance it is for, if that one waits for it. -/
theorem reply_inst {s s' : Synod cfg} {rid : Nat} (h : s.step (.reply rid) = some s')
    (hn : ∀ k i, (s.props k i).req ≠ none → (s.props k i).notified = false)
    (hfair : ∀ x ∈ s.rsps, s.Fair x) (k : Fin cfg.totalProposer) (i : Nat) :
    InstStep s s' (.reply rid) k i := by
  simp only [step] at h
  split at h
  · cases h
  rename_i x hx
  split at h
  · cases h
  rename_i c hc
  obtain ⟨⟨p', outs⟩, hr, rfl⟩ := Option.map_eq_some_iff.mp h
  have hxmem : x ∈ s.rsps := List.mem_of_getElem? hx
  obtain ⟨⟨c', hc', hlt, hpinst⟩, hempty⟩ := hfair x hxmem
  obtain rfl := Option.some.inj (hc.symm.trans hc')
  have hmod : c.msg.pp.pinst % (cfg.on c.src).plogInstNum = c.msg.pp.pinst := Nat.mod_eq_of_lt hlt
  have hgrow : ∀ new, (s.send c.src p' x.msg.pp.pinst (broadcasts outs)).bcasts = s.bcasts ++ new →
      Grows s { s.send c.src p' x.msg.pp.pinst (broadcasts outs) with
        called := s.called ++ [(x.bid, x.acc)]
        counted := s.counted ++
          countedOf (s.props c.src x.msg.pp.pinst) c.src c.msg.pp.term x.acc x.msg } new := by
    intro new hb
    exact ⟨hb, fun _ h => h, List.prefix_append _ _, List.subset_append_left _ _, fun _ h => h⟩
  by_cases hown : x.msg.pp.pinst = c.msg.pp.pinst
  · rw [Proposer.handleRpcResponse_own (m := rpcResponseOf c.msg x.msg) rfl
      (hown.trans hmod.symm)] at hr
    obtain ⟨⟨st, o⟩, hd, he⟩ := Option.map_eq_some_iff.mp hr
    obtain ⟨rfl, rfl⟩ := Prod.mk.inj he
    have hinst : (rpcResponseOf c.msg x.msg).pinst % (cfg.on c.src).plogInstNum = x.msg.pp.pinst :=
      hmod.trans hown.symm
    rw [hinst] at hd
    have hownans : OwnAnswers (s.props c.src x.msg.pp.pinst) x.msg :=
      fun q _ hv _ => hempty hv.type hv.status
    have hbc : (s.send c.src (Function.update (s.props c.src) x.msg.pp.pinst st) x.msg.pp.pinst
        (broadcasts o)).bcasts =
        s.bcasts ++ (broadcasts o).map fun m => ⟨c.src, x.msg.pp.pinst, st.term, m⟩ := by
      unfold send
      dsimp only
      rw [Function.update_self]
    simp only [hinst] at hgrow ⊢
    rcases handleRsp_moved hd (hn _ _) hownans with ⟨hkept, hb⟩ | ⟨haw, hm⟩
    · rw [hb] at hbc
      exact instStep_of_kept rfl (hgrow [] (by rw [hb]; exact hbc)) hkept k i
    · refine instStep_of_moved rfl (hgrow _ hbc) ⟨?_, ?_⟩ hm k i
      · intro rsp he
        cases he
        exact ⟨x, rfl, ⟨hxmem, c, hc, rfl, hown.symm, haw⟩, rfl⟩
      · intro _ _ he
        cases he
  · obtain ⟨hne, ht⟩ := hpinst.resolve_left hown
    obtain ⟨st, rfl, hkept, hb⟩ :=
      handleRpcResponse_stray (m := rpcResponseOf c.msg x.msg) rfl ht hne hr
    refine instStep_of_kept ?_ (hgrow [] ?_) hkept k i
    · rfl
    · rw [hb]
      rfl

theorem step_inst {s s' : Synod cfg} {l : SynodOp cfg} (h : s.step l = some s')
    (hn : ∀ k i, (s.props k i).req ≠ none → (s.props k i).notified = false)
    (hfair : ∀ x ∈ s.rsps, s.Fair x) (k : Fin cfg.totalProposer) (i : Nat) :
    InstStep s s' l k i := by
  cases l with
  | propose k₀ opaqueData val pinst promise oom =>
    obtain rfl := Option.some.inj h
    have hi : pinst % cfg.plogInstNum < (cfg.on k₀).plogInstNum := Nat.mod_lt _ cfg.inst_pos
    have hm :=
      proposeAsync_moved (s.props k₀ (pinst % cfg.plogInstNum)) hi opaqueData val promise oom
    refine instStep_of_moved ?_ ?_ ⟨?_, ?_⟩ hm k i
    · rfl
    rotate_left
    · intro _ h
      cases h
    · intro od v hv
      cases hv
      exact ⟨pinst, promise, oom, rfl, rfl⟩
    · refine ⟨?_, fun _ h => h, List.prefix_refl _, fun _ h => h, fun _ h => h⟩
      simp only [send, Proposer.proposeAsync,
        show (cfg.on k₀).plogInstNum = cfg.plogInstNum from rfl,
        Function.update_self]
  | entryChosen k₀ msg fromPlog =>
    obtain rfl := Option.some.inj h
    refine instStep_of_kept ?_ ?_ (onEntryChosen_kept (s.props k₀ (msg.pp.pinst % cfg.plogInstNum)) msg.pp
      fromPlog) k i
    · rfl
    · exact grows_of_same rfl rfl rfl rfl rfl
  | timeout k₀ term pinst entry =>
    obtain ⟨⟨p', outs⟩, hr, rfl⟩ := Option.map_eq_some_iff.mp h
    cases Proposer.handleRpcResponse_done hr with
    | late =>
      refine instStep_of_same ?_ (send_nil s k₀ _ _) k i
      exact Function.update_eq_self _ _
    | timeout =>
      obtain ⟨hkept, hb⟩ := handleTimeout_kept (s.props k₀ (pinst % cfg.plogInstNum))
      refine instStep_of_kept ?_ ?_ hkept k i
      · rfl
      · simp only [show (cfg.on k₀).plogInstNum = cfg.plogInstNum from rfl, hb]
        exact send_nil s k₀ _ _
    | prepare rsp _ hrsp | accept rsp _ hrsp | phaseless rsp hrsp => cases hrsp
  | deliver bid acc saves =>
    simp only [step] at h
    split at h
    · cases h
    · obtain rfl := Option.some.inj h
      refine instStep_of_same ?_ ?_ k i
      · rfl
      · exact ⟨(List.append_nil _).symm, List.subset_append_left _ _, List.prefix_refl _,
          fun _ h => h,
          List.subset_append_left _ _⟩
  | restart acc inst batch lastCommitted fuel =>
    obtain ⟨a, _, rfl⟩ := Option.map_eq_some_iff.mp h
    refine instStep_of_same ?_ ?_ k i
    · rfl
    · exact grows_of_same rfl rfl rfl rfl rfl
  | reply rid => exact reply_inst h hn hfair k i

/-! ## What a step does to the acceptors and the records -/

/-- What step `l` does to the acceptors, their answers and their votes. -/
inductive NetStep (s s' : Synod cfg) : SynodOp cfg → Prop
  | other (l : SynodOp cfg) (haccs : s'.accs = s.accs) (hrsps : s'.rsps = s.rsps)
      (hvotes : s'.votes = s.votes) : NetStep s s' l
  | deliver (bid : Nat) (acc : Fin cfg.totalAcceptor) (saves : Saves) (c : Bcast cfg)
      (hc : s.bcasts[bid]? = some c)
      (haccs : s'.accs = Function.update s.accs acc ((s.accs acc).doHandleMsg (cfg.on acc) saves c.msg).2)
      (hrsps : s'.rsps = s.rsps ++
        ((s.accs acc).doHandleMsg (cfg.on acc) saves c.msg).1.toList.map fun rsp => ⟨bid, acc, rsp⟩)
      (hvotes : s'.votes = s.votes ++
        voteOf acc ((s.accs acc).doHandleMsg (cfg.on acc) saves c.msg).2 c.msg)
      (hbcasts : s'.bcasts = s.bcasts) : NetStep s s' (.deliver bid acc saves)
  | restart (acc : Fin cfg.totalAcceptor) (inst : Nat) (batch : Batch)
      (lastCommitted : Except Int Nat) (fuel : Nat) (m : EntryMng)
      (hm : loadAllFromDisk batch lastCommitted fuel
        (EntryMng.new (cfg.on acc) inst ((s.accs acc).mngs inst).disk) = some (true, m))
      (haccs : s'.accs = Function.update s.accs acc
        { s.accs acc with mngs := Function.update (s.accs acc).mngs inst m })
      (hrsps : s'.rsps = s.rsps) (hvotes : s'.votes = s.votes) :
      NetStep s s' (.restart acc inst batch lastCommitted fuel)

theorem step_net {s s' : Synod cfg} {l : SynodOp cfg} (h : s.step l = some s') :
    NetStep s s' l := by
  cases l with
  | propose | entryChosen =>
    obtain rfl := Option.some.inj h
    exact .other _ rfl rfl rfl
  | timeout =>
    obtain ⟨_, _, rfl⟩ := Option.map_eq_some_iff.mp h
    exact .other _ rfl rfl rfl
  | deliver bid acc saves =>
    simp only [step] at h
    split at h
    · cases h
    · rename_i c hc
      obtain rfl := Option.some.inj h
      exact .deliver bid acc saves c hc rfl rfl rfl rfl
  | reply rid =>
    simp only [step] at h
    split at h
    · cases h
    · split at h
      · cases h
      · obtain ⟨_, _, rfl⟩ := Option.map_eq_some_iff.mp h
        exact .other _ rfl rfl rfl
  | restart acc inst batch lastCommitted fuel =>
    obtain ⟨a, ha, rfl⟩ := Option.map_eq_some_iff.mp h
    simp only [Acceptor.step] at ha
    split at ha
    · rename_i m hm
      obtain rfl := Option.some.inj ha
      exact .restart acc inst batch lastCommitted fuel m hm rfl rfl rfl
    · cases ha

theorem step_grows {s s' : Synod cfg} {l : SynodOp cfg} (h : s.step l = some s') :
    ∃ new, Grows s s' new := by
  cases l with
  | propose =>
    obtain rfl := Option.some.inj h
    exact ⟨_, rfl, fun _ h => h, List.prefix_refl _, fun _ h => h, fun _ h => h⟩
  | entryChosen =>
    obtain rfl := Option.some.inj h
    exact ⟨[], grows_of_same rfl rfl rfl rfl rfl⟩
  | timeout =>
    obtain ⟨_, _, rfl⟩ := Option.map_eq_some_iff.mp h
    exact ⟨_, rfl, fun _ h => h, List.prefix_refl _, fun _ h => h, fun _ h => h⟩
  | deliver bid acc saves =>
    simp only [step] at h
    split at h
    · cases h
    · obtain rfl := Option.some.inj h
      exact ⟨[], (List.append_nil _).symm, List.subset_append_left _ _, List.prefix_refl _,
        fun _ h => h,
        List.subset_append_left _ _⟩
  | reply rid =>
    simp only [step] at h
    split at h
    · cases h
    · split at h
      · cases h
      · obtain ⟨_, _, rfl⟩ := Option.map_eq_some_iff.mp h
        exact ⟨_, rfl, fun _ h => h, List.prefix_append _ _, List.subset_append_left _ _,
          fun _ h => h⟩
  | restart acc inst batch lastCommitted fuel =>
    obtain ⟨_, _, rfl⟩ := Option.map_eq_some_iff.mp h
    exact ⟨[], grows_of_same rfl rfl rfl rfl rfl⟩

/-- A step invokes the callback of a broadcast, or none. -/
theorem step_called {s s' : Synod cfg} {l : SynodOp cfg} (h : s.step l = some s') :
    s'.called = s.called ∨ ∃ rid x, l = .reply rid ∧ s.rsps[rid]? = some x ∧ x.bid < s.bcasts.length ∧
      s'.called = s.called ++ [(x.bid, x.acc)] := by
  cases l with
  | propose | entryChosen =>
    obtain rfl := Option.some.inj h
    exact .inl rfl
  | timeout | restart =>
    obtain ⟨_, _, rfl⟩ := Option.map_eq_some_iff.mp h
    exact .inl rfl
  | deliver =>
    simp only [step] at h
    split at h
    · cases h
    · obtain rfl := Option.some.inj h
      exact .inl rfl
  | reply =>
    simp only [step] at h
    split at h
    · cases h
    rename_i x hx
    split at h
    · cases h
    rename_i c hc
    obtain ⟨_, _, rfl⟩ := Option.map_eq_some_iff.mp h
    exact .inr ⟨_, x, rfl, hx, (List.getElem?_eq_some_iff.mp hc).1, rfl⟩

end Synod
end Quarrel
