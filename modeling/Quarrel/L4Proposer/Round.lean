import Quarrel.Core.LTS
import Quarrel.Core.Quorum
import Quarrel.L3Role.ProposerSpec

/-!
# The result of a round

One `ProposeAsync` round: its PREPARE answers, its ACCEPT
answers and its timeout, in any order, any contents, one answer an acceptor and
phase, and chosen entries learned meanwhile.

The result is a local variable of the two handlers, overwritten by every
response and reported with the last one. A valid response leaves it at OK, so a
phase that ends on a valid response reports OK, majority or not.

* `Honest`: OK is reported after a majority has answered the round's ACCEPT only.
* `EndsShort`: the response with which a phase ends that way.
* `round_step`: any other step keeps the round sound, and that one breaks it for good.
* `honest_iff`: a round is honest exactly when no step of it ends short.
-/
namespace Quarrel

open InstanceState

/-- The codes promises are set to. -/
def codes (outs : List Out) : List Int := (promisesSet outs).map Prod.snd

@[simp] theorem codes_nil : codes [] = [] := rfl
@[simp] theorem codes_rpc (m : PaxosMsg) (outs : List Out) :
    codes (.rpc m :: outs) = codes outs := rfl
@[simp] theorem codes_set (k : Nat) (c : Int) (outs : List Out) :
    codes (.setValue k c :: outs) = c :: codes outs := rfl
@[simp] theorem codes_timeout (i e t : Nat) (outs : List Out) :
    codes (.addTimeout i e t :: outs) = codes outs := rfl

/-- The ACCEPT request among the messages broadcast. -/
def acceptReqOf (outs : List Out) : Option PaxosMsg := (broadcasts outs).find? (·.type = .acceptReq)

/-- An instance during a round, with what the round has seen so far: `term` is the
term of its first message, `accept` its ACCEPT request, `prepared` the acceptors
that answered the PREPARE, `answered` the answers to the ACCEPT, `replied` the
codes the caller got. -/
structure Round (cfg : Configure) where
  inst : InstanceState
  term : Nat
  accept : Option PaxosMsg
  prepared : List (Fin cfg.totalAcceptor)
  answered : List (Fin cfg.totalAcceptor × PaxosMsg)
  replied : List Int

inductive RoundOp (cfg : Configure) where
  | prepareRsp (acc : Fin cfg.totalAcceptor) (rsp : PaxosMsg)
  | acceptRsp (acc : Fin cfg.totalAcceptor) (rsp : PaxosMsg)
  | timeout
  | entryChosen (pp : Proposal) (fromPlog : Bool)

namespace Round

variable {cfg : Configure}

/-- The round once its instance is `s'` and has put out `outs`. -/
def after (r : Round cfg) (s' : InstanceState) (outs : List Out) : Round cfg :=
  { r with
    inst := s'
    accept := r.accept <|> acceptReqOf outs
    replied := r.replied ++ codes outs }

/-- The round `ProposeAsync` starts. -/
def start (cfg : Configure) (s : InstanceState) (pinst opaqueData : Nat) (val : List UInt8)
    (promise : Nat) : Round cfg :=
  let res := s.proposeAsync cfg pinst opaqueData val promise false
  ⟨res.1, s.term, acceptReqOf res.2, [], [], codes res.2⟩

/-- An acceptor answers each of the two requests once, with the type that goes with it. -/
def step (r : Round cfg) : RoundOp cfg → Option (Round cfg)
  | .prepareRsp acc rsp =>
    if acc ∈ r.prepared ∨ rsp.type ≠ .prepareRsp then none
    else (r.inst.handleRsp cfg r.term rsp).map fun res =>
      { r.after res.1 res.2 with prepared := acc :: r.prepared }
  | .acceptRsp acc rsp =>
    match r.accept with
    | none => none
    | some m =>
      if acc ∈ r.answered.map Prod.fst ∨ rsp.type ≠ .acceptRsp then none
      else (r.inst.handleRsp cfg m.pp.term rsp).map fun res =>
        { r.after res.1 res.2 with answered := (acc, rsp) :: r.answered }
  | .timeout =>
    if r.inst.Awaits r.term then some (r.after r.inst.handleTimeout.1 r.inst.handleTimeout.2) else some r
  | .entryChosen pp fromPlog => some { r with inst := r.inst.onEntryChosen pp fromPlog }

/-- The rounds that start from an idle instance. -/
def sys (cfg : Configure) : LTS (Round cfg) (RoundOp cfg) :=
  .ofFn (fun r => ∃ s pinst opaqueData val promise, s.req = none ∧
    r = start cfg s pinst opaqueData val promise) step

/-- OK is reported only if a majority has answered the ACCEPT request with errcode
OK, status ACCEPTED and the request's id and value id. -/
def Honest (r : Round cfg) : Prop :=
  ErrCode.ok ∈ r.replied → ∃ m, r.accept = some m ∧
    ∃ Q : Finset (Fin cfg.totalAcceptor), Majority Q ∧
      ∀ a ∈ Q, ∃ rsp, (a, rsp) ∈ r.answered ∧ ValidAccept m rsp

/-- The next response ends its phase, the caller has no result yet, and OK is what
it gets: a valid response is the last one of a phase without a majority, or a
promise of id 0 completes the majority of the PREPARE. -/
def EndsShort (r : Round cfg) : RoundOp cfg → Prop
  | .prepareRsp _ rsp => ∃ req, r.inst.req = some req ∧ r.inst.Awaits r.term ∧
      r.inst.phase = preparingPhase ∧ r.inst.notified = false ∧ ValidPromise req rsp ∧
      ¬ OtherValue req rsp ∧ ((u8 (r.inst.validRspCount + 1) < cfg.majority ∧ r.inst.lastRsp cfg) ∨
        (cfg.majority ≤ u8 (r.inst.validRspCount + 1) ∧ rsp.pp.pid = 0))
  | .acceptRsp _ rsp => ∃ req m, r.inst.req = some req ∧ r.accept = some m ∧ r.inst.Awaits m.pp.term ∧
      r.inst.phase = acceptingPhase ∧ r.inst.notified = false ∧ ValidAccept req rsp ∧
      u8 (r.inst.validRspCount + 1) < cfg.majority ∧ r.inst.lastRsp cfg
  | _ => False

/-- Steps that do not end short. -/
def Complete (r : Round cfg) (op : RoundOp cfg) (_ : Round cfg) : Prop := ¬ EndsShort r op

/-! ## The invariant -/

/-- The answers to `m` that are valid. -/
def validAnswers (m : PaxosMsg) (l : List (Fin cfg.totalAcceptor × PaxosMsg)) :
    List (Fin cfg.totalAcceptor × PaxosMsg) := l.filter fun x => ValidAccept m x.2

/-- The round is outstanding. While the caller waits, the request is the one
broadcast and the counters count the answers to it. -/
inductive Live (r : Round cfg) : Prop
  | preparing (req : PaxosMsg) (hreq : r.inst.req = some req) (hph : r.inst.phase = preparingPhase)
      (hacc : r.accept = none) (hans : r.answered = [])
  | accepting (req m : PaxosMsg) (hreq : r.inst.req = some req)
      (hph : r.inst.phase = acceptingPhase) (hacc : r.accept = some m)
      (hids : r.inst.notified = false → req.pp.pid = m.pp.pid ∧ req.pp.valueId = m.pp.valueId)
      (hcount : r.inst.notified = false → r.inst.Awaits m.pp.term →
        r.inst.rspCount = r.answered.length ∧ r.inst.validRspCount = (validAnswers m r.answered).length)

structure Sound (r : Round cfg) : Prop where
  distinct : (r.answered.map Prod.fst).Nodup
  live : r.inst.req ≠ none → Live r ∧ ErrCode.ok ∉ r.replied
  honest : Honest r

/-- OK has been reported, the round is over and its ACCEPT was never broadcast, or
has all the answers it will get without a majority among them. -/
structure Broken (r : Round cfg) : Prop where
  replied : ErrCode.ok ∈ r.replied
  ended : r.inst.req = none
  distinct : (r.answered.map Prod.fst).Nodup
  short : ∀ m, r.accept = some m → r.answered.length = cfg.totalAcceptor ∧
    (validAnswers m r.answered).length < cfg.majority

theorem Broken.not_honest {r : Round cfg} (h : Broken r) : ¬ Honest r := by
  intro hh
  obtain ⟨m, hm, hQ⟩ := hh h.replied
  have hle := (exists_majority_iff (p := ValidAccept m) h.distinct).mp hQ
  rw [Fintype.card_fin] at hle
  exact Nat.not_le.mpr (h.short m hm).2 hle

/-- A majority of the answers is valid. -/
theorem honest_of_count {r : Round cfg} {m : PaxosMsg} (hd : (r.answered.map Prod.fst).Nodup)
    (hm : r.accept = some m) (hle : cfg.majority ≤ (validAnswers m r.answered).length) :
    Honest r := by
  intro _
  refine ⟨m, hm, (exists_majority_iff (p := ValidAccept m) hd).mpr ?_⟩
  rw [Fintype.card_fin]
  exact hle

/-- What was reported stays honest while answers arrive and nothing else is reported. -/
theorem Honest.mono {r r' : Round cfg} (h : Honest r)
    (hr : ErrCode.ok ∈ r'.replied → ErrCode.ok ∈ r.replied)
    (ha : r.accept ≠ none → r'.accept = r.accept) (hans : ∀ x ∈ r.answered, x ∈ r'.answered) :
    Honest r' := by
  intro hok
  obtain ⟨m, hm, Q, hQ, hall⟩ := h (hr hok)
  refine ⟨m, (ha (by rw [hm]; simp)).trans hm, Q, hQ, fun a haQ => ?_⟩
  obtain ⟨rsp, hmem, hv⟩ := hall a haQ
  exact ⟨rsp, hans _ hmem, hv⟩

/-! ## The end of a phase -/

section

variable {s s' : InstanceState} {ret : Int} {done first : Bool} {outs : List Out}

/-- The PREPARE phase reports OK when it ends at OK and the caller has no result. -/
theorem prepareOut_codes (h : (s', outs) = s.prepareOut ret done first) :
    (ErrCode.ok ∈ codes outs ↔ done = true ∧ ret = ErrCode.ok ∧ s.notified = false) ∧
      acceptReqOf outs = none := by
  have ho : outs = (s.prepareOut ret done first).2 := congrArg Prod.snd h
  rw [ho]
  unfold prepareOut
  dsimp only
  have hneg : (if ret < 0 then ErrCode.prepareNotQuoraum else ret) = ErrCode.ok ↔
      ret = ErrCode.ok := by
    show (if ret < 0 then (-30003 : Int) else ret) = 0 ↔ ret = 0
    split <;> omega
  have hpeer : ErrCode.ok ≠ ErrCode.preparePeerValue := by decide
  cases done <;> cases hn : s.notified <;> cases first <;>
    simp [acceptReqOf, broadcasts, promisesSet, codes, eq_comm (a := ErrCode.ok), hneg]

/-- The ACCEPT phase reports its result when it ends and the caller has none. -/
theorem acceptOut_codes (h : (s', outs) = s.acceptOut ret done) :
    (ErrCode.ok ∈ codes outs ↔ done = true ∧ ret = ErrCode.ok ∧ s.notified = false) ∧
      acceptReqOf outs = none := by
  have ho : outs = (s.acceptOut ret done).2 := congrArg Prod.snd h
  rw [ho]
  unfold acceptOut
  cases done <;> cases hn : s.notified <;>
    simp [acceptReqOf, broadcasts, promisesSet, codes, eq_comm (a := ErrCode.ok)]

end

/-! ## One step -/

variable {r : Round cfg}

@[simp] theorem after_nil (r : Round cfg) : r.after r.inst [] = r := by
  have hacc : (r.accept <|> acceptReqOf []) = r.accept := by cases r.accept <;> rfl
  have hrep : r.replied ++ codes [] = r.replied := List.append_nil _
  unfold after
  rw [hacc, hrep]

theorem after_replied {outs : List Out} (hl : ErrCode.ok ∉ r.replied)
    (hc : ErrCode.ok ∉ codes outs) :
    ErrCode.ok ∉ r.replied ++ codes outs := by
  intro hm
  rcases List.mem_append.mp hm with hm | hm
  · exact hl hm
  · exact hc hm

theorem after_accept {outs : List Out} {m : PaxosMsg} (h : r.accept = some m) :
    (r.accept <|> acceptReqOf outs) = some m := by
  rw [h]
  rfl

theorem Sound.quiet (hd : (r.answered.map Prod.fst).Nodup) (hok : ErrCode.ok ∉ r.replied)
    (hl : r.inst.req ≠ none → Live r) : Sound r :=
  ⟨hd, fun h => ⟨hl h, hok⟩, fun h => absurd h hok⟩

theorem Sound.congr (h : Sound r) {s' : InstanceState} (hreq : s'.req = r.inst.req)
    (hstate : s'.state = r.inst.state) (hterm : s'.term = r.inst.term)
    (hrc : s'.rspCount = r.inst.rspCount)
    (hvc : s'.validRspCount = r.inst.validRspCount) (l : List (Fin cfg.totalAcceptor)) :
    Sound { r with inst := s', prepared := l } := by
  have hph := phase_of_state hstate
  have hn := notified_of_state hstate
  refine ⟨h.distinct, fun hne => ?_, h.honest⟩
  obtain ⟨hl, hok⟩ := h.live (hreq ▸ hne)
  refine ⟨?_, hok⟩
  cases hl with
  | preparing req hq hp ha hans => exact .preparing req (hreq.trans hq) (hph.trans hp) ha hans
  | accepting req m hq hp ha hids hcount =>
    refine .accepting req m (hreq.trans hq) (hph.trans hp) ha (fun h => hids (hn ▸ h)) fun h haw =>
      ?_
    show s'.rspCount = r.answered.length ∧ s'.validRspCount = _
    rw [hrc, hvc]
    refine hcount (hn ▸ h) ?_
    unfold Awaits at haw ⊢
    rwa [hreq, hterm] at haw

theorem Sound.ignored (h : Sound r) (l : List (Fin cfg.totalAcceptor)) :
    Sound { r.after r.inst [] with prepared := l } := by
  rw [after_nil]
  exact h.congr rfl rfl rfl rfl rfl l

theorem Sound.late (h : Sound r) {m rsp : PaxosMsg} {acc : Fin cfg.totalAcceptor}
    (hacc : r.accept = some m)
    (haw : ¬ r.inst.Awaits m.pp.term) (hd : (((acc, rsp) :: r.answered).map Prod.fst).Nodup) :
    Sound { r.after r.inst [] with answered := (acc, rsp) :: r.answered } := by
  rw [after_nil]
  refine ⟨hd, fun hne => ?_, h.honest.mono (fun hok => hok) (fun _ => rfl)
    fun _ hx => List.mem_cons_of_mem _ hx⟩
  obtain ⟨hl, hok⟩ := h.live hne
  refine ⟨?_, hok⟩
  cases hl with
  | preparing _ _ _ hnone _ => rw [hacc] at hnone; cases hnone
  | accepting req m' hreq hph hm' hids _ =>
    rw [hacc] at hm'
    obtain rfl := Option.some.inj hm'
    exact .accepting req m hreq hph hacc hids fun _ haw' => absurd haw' haw

section

variable {s₁ s' : InstanceState} {ret : Int} {done first : Bool} {outs : List Out}
  {l : List (Fin cfg.totalAcceptor)}

/-- The PREPARE phase goes on, or ends with another result than OK. -/
theorem prepareOut_sound (ho : (s', outs) = s₁.prepareOut ret done first) (hl : ErrCode.ok ∉ r.replied)
    (hacc : r.accept = none) (hans : r.answered = []) (hph : s₁.phase = preparingPhase)
    (hno : ¬ (done = true ∧ ret = ErrCode.ok ∧ s₁.notified = false)) :
    Sound { r.after s' outs with prepared := l } := by
  obtain ⟨hcodes, hreqOf⟩ := prepareOut_codes ho
  refine Sound.quiet (hans ▸ List.nodup_nil) (after_replied hl fun hm => hno (hcodes.mp hm)) fun hne => ?_
  obtain ⟨q, hq⟩ := Option.ne_none_iff_exists'.mp hne
  refine .preparing q hq ?_ ?_ hans
  · show s'.phase = _
    rw [prepareOut_state ho]
    split <;> exact hph
  · show (r.accept <|> acceptReqOf outs) = none
    rw [hacc, hreqOf]
    rfl

/-- The PREPARE phase ends, and OK is the result. -/
theorem prepareOut_broken (ho : (s', outs) = s₁.prepareOut ErrCode.ok true first) (hacc : r.accept = none)
    (hans : r.answered = []) (hn : s₁.notified = false) :
    Broken { r.after s' outs with prepared := l } := by
  obtain ⟨hcodes, hreqOf⟩ := prepareOut_codes ho
  refine ⟨List.mem_append_right _ (hcodes.mpr ⟨rfl, rfl, hn⟩), ?_, hans ▸ List.nodup_nil,
    fun m hm => ?_⟩
  · show s'.req = none
    rw [prepareOut_state ho, if_pos rfl]
  · have hnone : (r.accept <|> acceptReqOf outs) = some m := hm
    rw [hacc, hreqOf] at hnone
    cases hnone

end

/-- Only a valid promise of the caller's own value ends short. -/
theorem endsShort_prepareRsp {req rsp : PaxosMsg} {acc : Fin cfg.totalAcceptor}
    (hreq : r.inst.req = some req) (haw : r.inst.Awaits r.term)
    (hph : r.inst.phase = preparingPhase) :
    EndsShort r (.prepareRsp acc rsp) ↔ r.inst.notified = false ∧ ValidPromise req rsp ∧
      ¬ OtherValue req rsp ∧ ((u8 (r.inst.validRspCount + 1) < cfg.majority ∧ r.inst.lastRsp cfg) ∨
        (cfg.majority ≤ u8 (r.inst.validRspCount + 1) ∧ rsp.pp.pid = 0)) := by
  constructor
  · intro ⟨q, hq, _, _, hrest⟩
    rw [hreq] at hq
    obtain rfl := Option.some.inj hq
    exact hrest
  · exact fun hrest => ⟨req, hreq, haw, hph, hrest⟩

theorem prepare_step {req rsp : PaxosMsg} {s' : InstanceState} {outs : List Out}
    {acc : Fin cfg.totalAcceptor} (hl : ErrCode.ok ∉ r.replied) (hreq : r.inst.req = some req)
    (haw : r.inst.Awaits r.term) (hph : r.inst.phase = preparingPhase) (hacc : r.accept = none)
    (hans : r.answered = []) (ht : rsp.type = .prepareRsp)
    (hd : PrepareRspDone cfg r.inst req rsp s' outs) :
    (EndsShort r (.prepareRsp acc rsp) ∧
      Broken { r.after s' outs with prepared := acc :: r.prepared }) ∨
      (¬ EndsShort r (.prepareRsp acc rsp) ∧
        Sound { r.after s' outs with prepared := acc :: r.prepared }) := by
  have hvalid := afterPromise_validRspCount r.inst req rsp
  have hph' := (afterPromise_keeps r.inst req rsp).phase
  have hnot := afterPromise_notified r.inst req rsp
  have hnot' : (r.inst.afterPromise req rsp).notified = false ↔
      r.inst.notified = false ∧ ¬ OtherValue req rsp := by
    rw [hnot, Bool.or_eq_false_iff, decide_eq_false_iff_not]
  rw [endsShort_prepareRsp hreq haw hph]
  cases hd with
  | wrongType h => exact absurd ht h
  | refused ret req' ig _ hv hret _ _ ho =>
    exact .inr ⟨fun h => hv h.2.1, prepareOut_sound ho hl hacc hans hph fun h => hret h.2.1⟩
  | pending hv _ hno ho =>
    rw [hvalid] at hno
    by_cases hend : r.inst.lastRsp cfg = true ∧ (r.inst.afterPromise req rsp).notified = false
    · obtain ⟨hlast, hn⟩ := hend
      rw [hlast] at ho
      have hlt : u8 (r.inst.validRspCount + 1) < cfg.majority := by
        by_contra hge
        exact hno ⟨Nat.not_lt.mp hge, fun h => by rw [hn] at h; cases h⟩
      obtain ⟨hn0, hown⟩ := hnot'.mp hn
      exact .inl ⟨⟨hn0, hv, hown, .inl ⟨hlt, hlast⟩⟩, prepareOut_broken ho hacc hans hn⟩
    · refine .inr ⟨fun ⟨hn0, _, hown, hend'⟩ => ?_,
        prepareOut_sound ho hl hacc hans (hph'.trans hph)
        fun h => hend ⟨h.1, h.2.2⟩⟩
      have hn := hnot'.mpr ⟨hn0, hown⟩
      rcases hend' with ⟨_, hlast⟩ | ⟨hmaj, _⟩
      · exact hend ⟨hlast, hn⟩
      · exact hno ⟨hmaj, fun h => by rw [hn] at h; cases h⟩
  | probed hv _ hmaj _ h0 ho =>
    rw [hvalid] at hmaj
    by_cases hn : (r.inst.afterPromise req rsp).notified = false
    · obtain ⟨hn0, hown⟩ := hnot'.mp hn
      exact .inl ⟨⟨hn0, hv, hown, .inr ⟨hmaj, h0⟩⟩, prepareOut_broken ho hacc hans hn⟩
    · exact .inr ⟨fun ⟨hn0, _, hown, _⟩ => hn (hnot'.mpr ⟨hn0, hown⟩),
        prepareOut_sound ho hl hacc hans (hph'.trans hph) fun h => hn h.2.2⟩
  | accepting m hv _ hmaj _ hpos hm hs ho =>
    rw [hvalid] at hmaj
    have hok : ErrCode.ok ∉ codes outs := by
      rw [ho]
      split <;> simp [codes, promisesSet]
    refine .inr ⟨fun ⟨_, _, _, hend'⟩ => ?_,
      Sound.quiet (hans ▸ List.nodup_nil) (after_replied hl hok) fun _ => ?_⟩
    · rcases hend' with ⟨hlt, _⟩ | ⟨_, h0⟩ <;> omega
    · have hsome : (enterAccept cfg r.inst req rsp m).req ≠ none := by
        unfold enterAccept
        dsimp only
        split <;> simp
      obtain ⟨q, hq⟩ := Option.ne_none_iff_exists'.mp hsome
      refine .accepting q (asAcceptReq cfg r.inst m) (hs ▸ hq) ?_ ?_ ?_ ?_
      · show s'.phase = _
        rw [hs]
        exact accepting_phase _
      · show (r.accept <|> acceptReqOf outs) = _
        rw [hacc, ho]
        rfl
      · intro hn
        have hn' : (r.inst.afterPromise req rsp).notified = false := by
          have : s'.notified = false := hn
          rw [hs] at this
          simpa only [notified, enterAccept, accepting_bit] using this
        simp only [enterAccept, hn', Bool.false_eq_true, if_false, Option.some.injEq] at hq
        rw [← hq]
        exact ⟨rfl, rfl⟩
      · intro _ _
        show s'.rspCount = r.answered.length ∧ s'.validRspCount = (validAnswers _ r.answered).length
        rw [hs, hans]
        exact ⟨rfl, rfl⟩

theorem validAnswers_cons (m rsp : PaxosMsg) (acc : Fin cfg.totalAcceptor)
    (l : List (Fin cfg.totalAcceptor × PaxosMsg)) : (validAnswers m ((acc, rsp) :: l)).length =
      (validAnswers m l).length + if ValidAccept m rsp then 1 else 0 := by
  unfold validAnswers
  rw [List.filter_cons]
  by_cases hv : ValidAccept m rsp <;> simp [hv]

section

variable {req m rsp : PaxosMsg} {s₁ s' : InstanceState} {ret : Int} {done : Bool} {outs : List Out}
  {acc : Fin cfg.totalAcceptor}

/-- The ACCEPT phase goes on, or ends with another result than OK. -/
theorem acceptOut_sound (ho : (s', outs) = s₁.acceptOut ret done) (hl : ErrCode.ok ∉ r.replied)
    (hd : (((acc, rsp) :: r.answered).map Prod.fst).Nodup) (hacc : r.accept = some m)
    (hreq : s₁.req = some req) (hph : s₁.phase = acceptingPhase)
    (hids : s₁.notified = false → req.pp.pid = m.pp.pid ∧ req.pp.valueId = m.pp.valueId)
    (hcount : s₁.notified = false → s₁.rspCount = r.answered.length + 1 ∧
      s₁.validRspCount = (validAnswers m ((acc, rsp) :: r.answered)).length)
    (hno : ¬ (done = true ∧ ret = ErrCode.ok ∧ s₁.notified = false)) :
    Sound { r.after s' outs with answered := (acc, rsp) :: r.answered } := by
  obtain ⟨hcodes, -⟩ := acceptOut_codes ho
  refine Sound.quiet hd (after_replied hl fun hm => hno (hcodes.mp hm)) fun hne => ?_
  have hs : s' = s₁ := by
    have hs := acceptOut_state ho
    cases hdone : done with
    | true =>
      rw [hdone, if_pos rfl] at hs
      exact absurd (show s'.req = none by rw [hs]) hne
    | false =>
      rw [hdone] at hs
      exact hs
  exact .accepting req m (hs ▸ hreq) (hs ▸ hph) (after_accept hacc) (fun hn => hids (hs ▸ hn))
    fun hn _ => hs ▸ hcount (hs ▸ hn)

/-- The ACCEPT phase ends, and OK is the result. -/
theorem acceptOut_broken (ho : (s', outs) = s₁.acceptOut ErrCode.ok true)
    (hd : (((acc, rsp) :: r.answered).map Prod.fst).Nodup) (hacc : r.accept = some m)
    (hn : s₁.notified = false) (hlast : r.answered.length + 1 = cfg.totalAcceptor)
    (hlt : (validAnswers m ((acc, rsp) :: r.answered)).length < cfg.majority) :
    Broken { r.after s' outs with answered := (acc, rsp) :: r.answered } := by
  obtain ⟨hcodes, -⟩ := acceptOut_codes ho
  refine ⟨List.mem_append_right _ (hcodes.mpr ⟨rfl, rfl, hn⟩), ?_, hd, fun m' hm' => ?_⟩
  · show s'.req = none
    rw [acceptOut_state ho, if_pos rfl]
  · obtain rfl : m = m' := Option.some.inj ((after_accept hacc).symm.trans hm')
    exact ⟨hlast, hlt⟩

theorem endsShort_acceptRsp (hreq : r.inst.req = some req) (haw : r.inst.Awaits m.pp.term)
    (hph : r.inst.phase = acceptingPhase) (hacc : r.accept = some m) :
    EndsShort r (.acceptRsp acc rsp) ↔ r.inst.notified = false ∧ ValidAccept req rsp ∧
      u8 (r.inst.validRspCount + 1) < cfg.majority ∧ r.inst.lastRsp cfg := by
  constructor
  · intro ⟨q, m', hq, _, _, _, hrest⟩
    rw [hreq] at hq
    obtain rfl := Option.some.inj hq
    exact hrest
  · exact fun hrest => ⟨req, m, hreq, hacc, haw, hph, hrest⟩

theorem accept_step (hl : ErrCode.ok ∉ r.replied) (hreq : r.inst.req = some req)
    (haw : r.inst.Awaits m.pp.term) (hph : r.inst.phase = acceptingPhase) (hacc : r.accept = some m)
    (hids : r.inst.notified = false → req.pp.pid = m.pp.pid ∧ req.pp.valueId = m.pp.valueId)
    (hcount : r.inst.notified = false →
      r.inst.rspCount = r.answered.length ∧ r.inst.validRspCount = (validAnswers m r.answered).length)
    (hd : (((acc, rsp) :: r.answered).map Prod.fst).Nodup) (ht : rsp.type = .acceptRsp)
    (hdone : AcceptRspDone cfg r.inst req rsp s' outs) :
    (EndsShort r (.acceptRsp acc rsp) ∧
        Broken { r.after s' outs with answered := (acc, rsp) :: r.answered }) ∨
      (¬ EndsShort r (.acceptRsp acc rsp) ∧
        Sound { r.after s' outs with answered := (acc, rsp) :: r.answered }) := by
  have hlen : r.answered.length + 1 ≤ cfg.totalAcceptor := by
    have := length_le_card hd
    rwa [Fintype.card_fin] at this
  have h256 := cfg.acceptor_lt_256
  have hle : (validAnswers m r.answered).length ≤ r.answered.length := List.length_filter_le _ _
  have hcons := validAnswers_cons m rsp acc r.answered
  -- no counter of a round wraps
  have hrsp : r.inst.notified = false → u8 (r.inst.rspCount + 1) = r.answered.length + 1 ∧
      u8 (r.inst.validRspCount + 1) = (validAnswers m r.answered).length + 1 := by
    intro hn
    obtain ⟨h1, h2⟩ := hcount hn
    rw [h1, h2]
    unfold u8
    omega
  have hvalid : r.inst.notified = false → (ValidAccept req rsp ↔ ValidAccept m rsp) :=
    fun hn => ValidAccept.congr (hids hn)
  rw [endsShort_acceptRsp hreq haw hph hacc]
  cases hdone with
  | wrongType h => exact absurd ht h
  | refused ret req' ig _ hv hret hq _ ho =>
    refine .inr ⟨fun h => hv h.2.1,
      acceptOut_sound ho hl hd hacc rfl hph (fun hn => ?_) (fun hn => ?_)
      fun h => hret h.2.1⟩
    · rcases hq with rfl | rfl
      · exact hids hn
      · exact hids hn
    · have hv' : ¬ ValidAccept m rsp := fun h => hv ((hvalid hn).mpr h)
      rw [hcons, if_neg hv']
      exact ⟨(hrsp hn).1, (hcount hn).2⟩
  | pending hv hno ho =>
    have hn' : (r.inst.afterAccept req rsp).notified = r.inst.notified := rfl
    have hcount' : r.inst.notified = false →
        (r.inst.afterAccept req rsp).rspCount = r.answered.length + 1 ∧
        (r.inst.afterAccept req rsp).validRspCount = (validAnswers m ((acc, rsp) :: r.answered)).length := by
      intro hn
      rw [hcons, if_pos ((hvalid hn).mp hv)]
      exact hrsp hn
    by_cases hend : r.inst.lastRsp cfg = true ∧ r.inst.notified = false
    · obtain ⟨hlast, hn⟩ := hend
      rw [hlast] at ho
      have hlast' : u8 (r.inst.rspCount + 1) = cfg.totalAcceptor := by simpa [lastRsp] using hlast
      have hlt := Nat.not_le.mp hno
      exact .inl ⟨⟨hn, hv, hlt, hlast⟩, acceptOut_broken ho hd hacc hn
        ((hrsp hn).1.symm.trans hlast') ((hcount' hn).2 ▸ hlt)⟩
    · exact .inr ⟨fun h => hend ⟨h.2.2.2, h.1⟩, acceptOut_sound ho hl hd hacc rfl hph
        (fun hn => hids hn) (fun hn => hcount' hn) fun h => hend ⟨h.1, h.2.2⟩⟩
  | chosen hv hmaj hs ho =>
    refine .inr ⟨fun h => absurd hmaj (Nat.not_le.mpr h.2.2.1), ?_⟩
    have hover : ({ r.after s' outs with answered := (acc, rsp) :: r.answered } :
        Round cfg).inst.req = none := by
      show s'.req = none
      rw [hs]
    cases hn : r.inst.notified with
    | true =>
      have hcodes : codes outs = [] := by rw [ho, hn]; rfl
      exact Sound.quiet hd (after_replied hl (hcodes ▸ List.not_mem_nil)) fun hne =>
        absurd hover hne
    | false =>
      refine ⟨hd, fun hne => absurd hover hne, honest_of_count (m := m) hd (after_accept hacc) ?_⟩
      show cfg.majority ≤ (validAnswers m ((acc, rsp) :: r.answered)).length
      rw [hcons, if_pos ((hvalid hn).mp hv)]
      rw [(hrsp hn).2] at hmaj
      exact hmaj

end

/-! ## Runs -/

theorem handleRsp_awaits {s s' : InstanceState} {term : Nat} {rsp : PaxosMsg} {outs : List Out}
    (h : s.handleRsp cfg term rsp = some (s', outs)) (haw : s.Awaits term) :
    (s.phase = preparingPhase → s.handlePrepareRsp cfg rsp = some (s', outs)) ∧
      (s.phase = acceptingPhase → s.handleAcceptRsp cfg rsp = (s', outs)) := by
  unfold handleRsp at h
  rw [if_neg (not_not.mpr haw)] at h
  refine ⟨fun hp => ?_, fun hp => ?_⟩
  · rwa [if_pos hp] at h
  · rw [hp, if_neg (by decide), if_pos rfl] at h
    exact Option.some.inj h

theorem handleRsp_drops {s s' : InstanceState} {term : Nat} {rsp : PaxosMsg} {outs : List Out}
    (h : s.handleRsp cfg term rsp = some (s', outs)) (haw : ¬ s.Awaits term) :
    s' = s ∧ outs = [] := by
  unfold handleRsp at h
  rw [if_pos haw] at h
  cases h
  exact ⟨rfl, rfl⟩

theorem prepareRsp_step {r' : Round cfg} {acc : Fin cfg.totalAcceptor} {rsp : PaxosMsg}
    (h : Sound r) (hs : (sys cfg).step r (.prepareRsp acc rsp) r') :
    (EndsShort r (.prepareRsp acc rsp) ∧ Broken r') ∨
    (¬ EndsShort r (.prepareRsp acc rsp) ∧ Sound r') := by
  simp only [sys, LTS.ofFn, step] at hs
  split at hs
  · cases hs
  rename_i hen
  rw [not_or, ne_eq, not_not] at hen
  obtain ⟨⟨s', outs⟩, hd, rfl⟩ := Option.map_eq_some_iff.mp hs
  by_cases haw : r.inst.Awaits r.term
  · obtain ⟨hl, hok⟩ := h.live (Option.isSome_iff_ne_none.mp haw.2)
    cases hl with
    | preparing req hreq hph hacc hans =>
      exact prepare_step hok hreq haw hph hacc hans hen.2
        (handlePrepareRsp_done hreq ((handleRsp_awaits hd haw).1 hph))
    | accepting req m hreq hph hacc hids hcount =>
      -- the instance has gone on to the ACCEPT, whose handler drops the answer
      have hno : ¬ EndsShort r (.prepareRsp acc rsp) := by
        intro ⟨_, _, _, hp, _⟩
        rw [hph] at hp
        exact absurd hp (by decide)
      have hdone := handleAcceptRsp_done hreq ((handleRsp_awaits hd haw).2 hph)
      cases hdone with
      | wrongType => exact .inr ⟨hno, h.ignored _⟩
      | refused _ _ _ ht => rw [hen.2] at ht; cases ht
      | pending hv | chosen hv => have := hv.type; rw [hen.2] at this; cases this
  · obtain ⟨rfl, rfl⟩ := handleRsp_drops hd haw
    exact .inr ⟨fun ⟨_, _, haw', _⟩ => haw haw', h.ignored _⟩

theorem acceptRsp_step {r' : Round cfg} {acc : Fin cfg.totalAcceptor} {rsp : PaxosMsg} (h : Sound r)
    (hs : (sys cfg).step r (.acceptRsp acc rsp) r') :
    (EndsShort r (.acceptRsp acc rsp) ∧ Broken r') ∨
    (¬ EndsShort r (.acceptRsp acc rsp) ∧ Sound r') := by
  simp only [sys, LTS.ofFn, step] at hs
  split at hs
  · cases hs
  rename_i m hacc
  split at hs
  · cases hs
  rename_i hen
  rw [not_or, ne_eq, not_not] at hen
  obtain ⟨⟨s', outs⟩, hd, rfl⟩ := Option.map_eq_some_iff.mp hs
  have hdist : (((acc, rsp) :: r.answered).map Prod.fst).Nodup :=
    List.nodup_cons.mpr ⟨hen.1, h.distinct⟩
  by_cases haw : r.inst.Awaits m.pp.term
  · obtain ⟨hl, hok⟩ := h.live (Option.isSome_iff_ne_none.mp haw.2)
    cases hl with
    | preparing _ _ _ hnone _ => rw [hacc] at hnone; cases hnone
    | accepting req m' hreq hph hacc' hids hcount =>
      rw [hacc] at hacc'
      obtain rfl := Option.some.inj hacc'
      exact accept_step hok hreq haw hph hacc hids (fun hn => hcount hn haw) hdist hen.2
        (handleAcceptRsp_done hreq ((handleRsp_awaits hd haw).2 hph))
  · obtain ⟨rfl, rfl⟩ := handleRsp_drops hd haw
    refine .inr ⟨fun ⟨_, m', _, hm', haw', _⟩ => ?_, h.late hacc haw hdist⟩
    rw [hacc] at hm'
    exact haw (Option.some.inj hm' ▸ haw')

theorem handleTimeout_codes (s : InstanceState) :
    codes s.handleTimeout.2 = if s.notified then [] else [ErrCode.timeout] := by
  unfold handleTimeout codes promisesSet
  dsimp only
  split <;> rfl

theorem Sound.timeout (h : Sound r) (haw : r.inst.Awaits r.term) :
    Sound (r.after r.inst.handleTimeout.1 r.inst.handleTimeout.2) := by
  obtain ⟨-, hok⟩ := h.live (Option.isSome_iff_ne_none.mp haw.2)
  refine Sound.quiet h.distinct (after_replied hok ?_) fun hne => absurd rfl hne
  rw [handleTimeout_codes]
  split <;> simp

theorem Sound.entryChosen (h : Sound r) (pp : Proposal) (fromPlog : Bool) :
    Sound { r with inst := r.inst.onEntryChosen pp fromPlog } := by
  unfold onEntryChosen
  split
  · exact h
  · have hkeeps := updateChosenInfo_keeps r.inst pp.pentry pp.proposer
    exact h.congr hkeeps.req hkeeps.state hkeeps.term hkeeps.rspCount hkeeps.validRspCount r.prepared

/-- A step that does not end short keeps the round sound; one that does breaks it. -/
theorem round_step {r r' : Round cfg} {op : RoundOp cfg} (h : Sound r)
    (hs : (sys cfg).step r op r') :
    (EndsShort r op ∧ Broken r') ∨ (¬ EndsShort r op ∧ Sound r') := by
  cases op with
  | prepareRsp acc rsp => exact prepareRsp_step h hs
  | acceptRsp acc rsp => exact acceptRsp_step h hs
  | timeout =>
    refine .inr ⟨fun h => h, ?_⟩
    simp only [sys, LTS.ofFn, step] at hs
    split at hs
    · rename_i haw
      obtain rfl := Option.some.inj hs
      exact h.timeout haw
    · obtain rfl := Option.some.inj hs
      exact h
  | entryChosen pp fromPlog =>
    obtain rfl := Option.some.inj hs
    exact .inr ⟨fun h => h, h.entryChosen pp fromPlog⟩

/-- A broken round stays so: nothing is awaited, and every acceptor has answered. -/
theorem Broken.step {r r' : Round cfg} {op : RoundOp cfg} (h : Broken r)
    (hs : (sys cfg).step r op r') :
    Broken r' := by
  have hover : ∀ t, ¬ r.inst.Awaits t := by
    intro t ⟨_, hsome⟩
    rw [h.ended] at hsome
    cases hsome
  cases op with
  | prepareRsp acc rsp =>
    simp only [sys, LTS.ofFn, Round.step] at hs
    split at hs
    · cases hs
    obtain ⟨⟨s', outs⟩, hd, rfl⟩ := Option.map_eq_some_iff.mp hs
    obtain ⟨rfl, rfl⟩ := handleRsp_drops hd (hover _)
    rw [after_nil]
    exact ⟨h.replied, h.ended, h.distinct, h.short⟩
  | acceptRsp acc rsp =>
    simp only [sys, LTS.ofFn, Round.step] at hs
    split at hs
    · cases hs
    rename_i m hm
    split at hs
    · cases hs
    rename_i hen
    refine absurd ?_ hen
    exact .inl (mem_of_all_answered h.distinct (by rw [Fintype.card_fin]; exact (h.short m hm).1) acc)
  | timeout =>
    simp only [sys, LTS.ofFn, Round.step, if_neg (hover _), Option.some.injEq] at hs
    exact hs ▸ h
  | entryChosen pp fromPlog =>
    obtain rfl := Option.some.inj hs
    refine ⟨h.replied, ?_, h.distinct, h.short⟩
    show (r.inst.onEntryChosen pp fromPlog).req = none
    unfold onEntryChosen
    split
    · exact h.ended
    · exact (updateChosenInfo_keeps r.inst pp.pentry pp.proposer).req.trans h.ended

theorem Broken.run {r r' : Round cfg} {ops : List (RoundOp cfg)} (h : Broken r)
    (hr : (sys cfg).Run r ops r') : Broken r' :=
  hr.preserve (fun _ _ _ hb hs => hb.step hs) h

theorem sound_start {s : InstanceState} (hidle : s.req = none) (pinst opaqueData : Nat)
    (val : List UInt8) (promise : Nat) : Sound (start cfg s pinst opaqueData val promise) := by
  have hd := proposeAsync_done cfg s pinst opaqueData val promise false
  unfold start
  generalize s.proposeAsync cfg pinst opaqueData val promise false = res at hd
  obtain ⟨s', outs⟩ := res
  cases hd with
  | rejected code hc =>
    refine Sound.quiet List.nodup_nil (fun hm => hc ?_) fun hne => absurd hidle hne
    exact (List.mem_singleton.mp hm).symm
  | prepare m _ hm _ =>
    obtain ⟨-, hph, -⟩ := begun_state cfg s pinst opaqueData val promise m
    have hacc : acceptReqOf [.rpc (asPrepareReq m), .addTimeout pinst m.pp.pentry m.pp.term] = none := by
      rw [hm]; rfl
    exact Sound.quiet List.nodup_nil List.not_mem_nil fun _ => .preparing m rfl hph hacc rfl
  | fast m _ hm _ _ =>
    obtain ⟨-, -, -, hph⟩ := begun_state cfg s pinst opaqueData val promise m
    have hacc : acceptReqOf [.rpc m, .addTimeout pinst m.pp.pentry m.pp.term] = some m := by rw [hm]; rfl
    exact Sound.quiet List.nodup_nil List.not_mem_nil fun _ =>
      .accepting m m rfl hph hacc (fun _ => ⟨rfl, rfl⟩) fun _ _ => ⟨rfl, rfl⟩

/-- A round reports OK on a majority of valid ACCEPT answers only, if and only if
none of its steps ends short. -/
theorem honest_iff {s : InstanceState} (hidle : s.req = none) {pinst opaqueData promise : Nat}
    {val : List UInt8} {ops : List (RoundOp cfg)} {r : Round cfg}
    (hrun : (sys cfg).Run (start cfg s pinst opaqueData val promise) ops r) :
    Honest r ↔
      ((sys cfg).restrict Complete).Run (start cfg s pinst opaqueData val promise) ops r := by
  have h : Sound (start cfg s pinst opaqueData val promise) :=
    sound_start hidle pinst opaqueData val promise
  generalize start cfg s pinst opaqueData val promise = r₀ at h hrun
  induction hrun with
  | nil => exact ⟨fun _ => .nil _, fun _ => h.honest⟩
  | cons hs hr ih =>
    rcases round_step h hs with ⟨hend, hb⟩ | ⟨hno, h'⟩
    · refine ⟨fun hh => absurd hh (hb.run hr).not_honest, fun hc => ?_⟩
      cases hc with
      | cons hs' _ => exact absurd hend hs'.2
    · refine ⟨fun hh => .cons ⟨hs, hno⟩ ((ih h').mp hh), fun hc => (ih h').mpr ?_⟩
      cases hc with
      | cons hs' hc' => exact Option.some.inj (hs.symm.trans hs'.1) ▸ hc'

/-- The master's first round, of the value `[9]`. -/
def firstRound : Round (Configure.init 0) :=
  start (Configure.init 0) (InstanceState.new 0 3 7) 0 1 [9] 1

/-- Two acceptors fail, then the third one promises. -/
def failFailPromise : List (RoundOp (Configure.init 0)) :=
  let m := asPrepareReq ((InstanceState.new 0 3 7).proposalMsg (Configure.init 0) 0 1 [9])
  let failed := { m with type := .prepareRsp, errcode := ErrCode.writePlogFail }
  [.prepareRsp ⟨0, first_of_three⟩ failed, .prepareRsp ⟨1, second_of_three⟩ failed,
    .prepareRsp ⟨2, third_of_three⟩ { m with type := .prepareRsp, pp := { m.pp with status := .promised } }]

theorem honest_iff_fail_fail_promise :
    ∃ r, LTS.exec step firstRound failFailPromise = some r ∧
      (Honest r ↔ ((sys (Configure.init 0)).restrict Complete).Run firstRound failFailPromise r) :=
  ⟨_, rfl, honest_iff rfl (LTS.run_of_exec rfl)⟩

/-- The round reports OK, and no ACCEPT was broadcast. -/
theorem not_honest :
    ¬ ∀ (cfg : Configure) (s : InstanceState) (pinst opaqueData promise : Nat) (val : List UInt8)
      (ops : List (RoundOp cfg)) (r : Round cfg), s.req = none → val ≠ [] →
      (sys cfg).Run (start cfg s pinst opaqueData val promise) ops r → Honest r := by
  intro hall
  have hrun : ∃ r, LTS.exec step firstRound failFailPromise = some r ∧ ErrCode.ok ∈ r.replied ∧
      r.accept = none := ⟨_, rfl, by decide +kernel, by decide +kernel⟩
  obtain ⟨r, hr, hok, hnone⟩ := hrun
  have hh :=
    hall (Configure.init 0) (InstanceState.new 0 3 7) 0 1 1 [9] failFailPromise r rfl (by simp)
    (LTS.run_of_exec hr)
  obtain ⟨m, hm, _⟩ := hh hok
  rw [hnone] at hm
  cases hm

end Round
end Quarrel
