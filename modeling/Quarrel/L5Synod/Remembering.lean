import Quarrel.L4Acceptor.Remember
import Quarrel.L5Synod.Agreement

/-!
# Restarts and evictions

What acceptors have promised and accepted is in their storages. It outlives an eviction and
a restart that reads back the whole log, as long as a request never opens an entry that was
saved but does not come back (`Remembers`). So agreement needs no cache that keeps
everything and no acceptor that never restarts.

* `Remembering`: saves succeed, restarts read the whole log, opened entries come back.
* `Keeper`: the storage has every vote and every promise given.
* `agreement_restarts`: in such runs every state agrees.
-/
namespace Quarrel

open InstanceState EntryMng

variable {cfg : Configure}

section

variable {m : EntryMng} {msg : PaxosMsg} {pp : Proposal} {t : PaxosMsgType} {h : Handled}

/-- A request that opens no entry does nothing. -/
theorem Served.opens (hs : Served m Saves.good msg.pp msg.type h) : h.mng = m ∨ Opens m msg := by
  generalize ht : msg.type = t at hs
  cases hs with
  | prepare hd =>
    by_cases hb : Behind m msg.pp
    · cases hd with
      | behind _ hm _ => exact .inl hm
      | voted _ hno | kept _ hno | probed hno | promised hno | failed hno => exact absurd hb hno
    · exact .inr (.inr ⟨.inl ht, hb⟩)
  | accept hd =>
    by_cases hb : Behind m msg.pp
    · cases hd with
      | behind _ hm _ => exact .inl hm
      | repeated _ hno | accepted hno | failed hno | refused _ _ hno => exact absurd hb hno
    · exact .inr (.inr ⟨.inr ht, hb⟩)
  | chosen => exact .inr (.inl ht)

/-- What a step of an entry keeps survives, in the storage, a request that finds it again. -/
theorem Served.keepsStored (hs : Served m Saves.good msg.pp msg.type h) (hin : InSync m)
    (hr : Opens m msg → Remembers m msg.pp.pentry) {P : Entry → Prop}
    (hP : ∀ x x', EntryStep x msg.pp x' → P x → P x')
    (hcarry : ∀ x y, x.accepted = y.accepted → x.promised = y.promised → P y → P x)
    (hx : ∃ x, m.disk msg.pp.pentry = some x ∧ P x) :
    ∃ x, h.mng.disk msg.pp.pentry = some x ∧ P x := by
  obtain ⟨x, hx, hPx⟩ := hx
  rcases hs.opens with he | hopen
  · rw [he]
    exact ⟨x, hx, hPx⟩
  rcases hs.entryStep with he | ⟨x', _, hst, hd | ⟨hd, _⟩⟩
  · rw [he]
    exact ⟨x, hx, hPx⟩
  · have hc := hin.opened (hr hopen)
    rw [hx] at hc
    exact ⟨x', hd, hP _ _ hst (hcarry _ _ hc.1 hc.2 hPx)⟩
  · rw [hd]
    exact ⟨x, hx, hPx⟩

end

theorem Entry.Covers.carried {x y : Entry} {p vid : Nat} (ha : x.accepted = y.accepted)
    (h : y.Covers p vid) : x.Covers p vid := by
  unfold Entry.Covers
  rw [ha]
  exact h

theorem Entry.Bars.carried {x y : Entry} {p : Nat} (ha : x.accepted = y.accepted)
    (hp : x.promised = y.promised) (h : y.Bars p) : x.Bars p := by
  unfold Entry.Bars
  rw [ha, hp]
  exact h

namespace Synod

structure Remembering (s : Synod cfg) (l : SynodOp cfg) (s' : Synod cfg) : Prop where
  saves : ∀ bid acc saves, l = .deliver bid acc saves → saves = Saves.good
  logs : ReadsLogs s l s'
  opened : ∀ bid acc saves c, l = .deliver bid acc saves → s.bcasts[bid]? = some c →
    Opens ((s.accs acc).mngs c.inst) c.msg → Remembers ((s.accs acc).mngs c.inst) c.msg.pp.pentry

/-- What holds of the storage of acceptor `a` and entry `e` of instance `i`. -/
structure Keeper (s : Synod cfg) (i e : Nat) (a : Fin cfg.totalAcceptor) : Prop where
  vote : ∀ v ∈ s.votes, v.At a i e → ∃ x, ((s.accs a).mngs i).disk e = some x ∧
    x.Covers v.pid v.valueId
  promise : ∀ x ∈ s.rsps, ∀ c, s.bcasts[x.bid]? = some c → x.Promises c a i e →
    ∃ y, ((s.accs a).mngs i).disk e = some y ∧ y.Bars c.msg.pp.pid
  sworn : s.Sworn i e a

section

variable {s s' : Synod cfg} {a : Fin cfg.totalAcceptor} {i e : Nat} {l : SynodOp cfg}

theorem inSync_step (h : ∀ a i, InSync ((s.accs a).mngs i)) (hreq : s.Requests)
    (hs : s.step l = some s') (hk : Remembering s l s') (a : Fin cfg.totalAcceptor) (i : Nat) :
    InSync ((s'.accs a).mngs i) := by
  cases hreq.step_mng hs a i with
  | same _ hm => exact hm ▸ h a i
  | served bid saves c hd hc hinst hsv hm =>
    obtain rfl := hk.saves _ _ _ rfl
    subst hinst
    rw [hm]
    exact hsv.inSync (h a _) (hk.opened _ _ _ c rfl hc)
  | restart batch lastCommitted fuel hm =>
    have hf := loadAllFromDisk_fromLog (hk.logs _ _ _ _ _ rfl) hm
    refine ⟨fun k x hx => ?_, fun k y hy => (h a i).filled k y (hf.disk ▸ hy)⟩
    rw [hf.disk, hf.cached k x hx]
    exact carries_self x

theorem Keeper.frame (h : s.Keeper i e a)
    (hd : ((s'.accs a).mngs i).disk e = ((s.accs a).mngs i).disk e)
    (hv : ∀ v ∈ s'.votes, v.At a i e → v ∈ s.votes)
    (hr : ∀ x ∈ s'.rsps, ∀ c, s'.bcasts[x.bid]? = some c → x.Promises c a i e →
      x ∈ s.rsps ∧ s.bcasts[x.bid]? = some c) : s'.Keeper i e a := by
  refine ⟨fun v hm hat => ?_, fun x hx c hb hp => ?_, ⟨fun v hm v' hm' hat hat' => ?_,
    fun x hx c hb hp v hm hat => ?_⟩⟩
  · rw [hd]
    exact h.vote v (hv v hm hat) hat
  · rw [hd]
    obtain ⟨hx', hb'⟩ := hr x hx c hb hp
    exact h.promise x hx' c hb' hp
  · exact h.sworn.one v (hv v hm hat) v' (hv v' hm' hat') hat hat'
  · obtain ⟨hx', hb'⟩ := hr x hx c hb hp
    exact h.sworn.barred x hx' c hb' hp v (hv v hm hat) hat

/-- The storage of the entry becomes `d`, which has the old votes and promises and the new ones. -/
theorem Keeper.stored (h : s.Keeper i e a) {d : Option Entry}
    (hd : ((s'.accs a).mngs i).disk e = d)
    (hkeep : ∀ {P : Entry → Prop}, (∀ x pp x', EntryStep x pp x' → P x → P x') →
      (∀ x y, x.accepted = y.accepted → x.promised = y.promised → P y → P x) →
      (∃ x, ((s.accs a).mngs i).disk e = some x ∧ P x) → ∃ x, d = some x ∧ P x)
    (hv : ∀ v ∈ s'.votes, v.At a i e → v ∈ s.votes ∨
      ∃ x q, d = some x ∧ x.accepted = some q ∧ q.pid = v.pid ∧ q.valueId = v.valueId)
    (hr : ∀ x ∈ s'.rsps, ∀ c, s'.bcasts[x.bid]? = some c → x.Promises c a i e →
      (x ∈ s.rsps ∧ s.bcasts[x.bid]? = some c) ∨
        ∃ y pr, d = some y ∧ y.accepted = none ∧ y.promised = some pr ∧ c.msg.pp.pid ≤ pr.pid) :
    s'.Keeper i e a := by
  have hvote : ∀ v ∈ s'.votes, v.At a i e → ∃ x, d = some x ∧ x.Covers v.pid v.valueId := by
    intro v hm hat
    rcases hv v hm hat with hold | ⟨x, q, hx, hq, hpid, hvid⟩
    · exact hkeep (fun _ _ _ hst => hst.covers) (fun _ _ ha _ => Entry.Covers.carried ha)
        (h.vote v hold hat)
    · exact ⟨x, hx, q, hq, Nat.le_of_eq hpid.symm, fun _ => hvid.symm⟩
  have hbars : ∀ x ∈ s'.rsps, ∀ c, s'.bcasts[x.bid]? = some c → x.Promises c a i e →
      ∃ y, d = some y ∧ y.Bars c.msg.pp.pid := by
    intro x hx c hb hp
    rcases hr x hx c hb hp with ⟨hx', hb'⟩ | ⟨y, pr, hy, hnone, hpr, hle⟩
    · exact hkeep (fun _ _ _ hst => hst.bars) (fun _ _ => Entry.Bars.carried) (h.promise x hx' c hb' hp)
    · exact ⟨y, hy, .inr ⟨hnone, pr, hpr, hle⟩⟩
  have hnew : ∀ v v' : Vote cfg, (∃ x q, d = some x ∧ x.accepted = some q ∧ q.pid = v.pid ∧
      q.valueId = v.valueId) → v' ∈ s'.votes → v'.At a i e → v.pid = v'.pid →
      v.valueId = v'.valueId := by
    intro v v' hheld hm hat heq
    obtain ⟨x, q, hx, hq, hpid, hvid⟩ := hheld
    obtain ⟨y, hy, q', hq', _, hsame⟩ := hvote v' hm hat
    obtain rfl := Option.some.inj (hx.symm.trans hy)
    obtain rfl := Option.some.inj (hq.symm.trans hq')
    rw [← hvid]
    exact (hsame (by omega)).symm
  refine ⟨hd ▸ hvote, hd ▸ hbars, ⟨fun v hm v' hm' hat hat' heq => ?_, fun x hx c hb hp v hm hat => ?_⟩⟩
  · rcases hv v hm hat with hold | hheld
    · rcases hv v' hm' hat' with hold' | hheld'
      · exact h.sworn.one v hold v' hold' hat hat' heq
      · exact (hnew v' v hheld' hm hat heq.symm).symm
    · exact hnew v v' hheld hm' hat' heq
  · obtain ⟨y, hy, hb'⟩ := hbars x hx c hb hp
    rcases hr x hx c hb hp with ⟨hx', hbo⟩ | ⟨z, pr, hz, hnone, _⟩
    · rcases hv v hm hat with hold | ⟨z, q, hz, hq, hpid, _⟩
      · exact h.sworn.barred x hx' c hbo hp v hold hat
      · obtain rfl := Option.some.inj (hy.symm.trans hz)
        rcases hb' with ⟨q', hq', hle⟩ | ⟨hn, _⟩
        · obtain rfl := Option.some.inj (hq.symm.trans hq')
          omega
        · rw [hq] at hn
          cases hn
    · obtain ⟨w, hw, q, hq, _⟩ := hvote v hm hat
      obtain rfl := Option.some.inj (hw.symm.trans hz)
      rw [hnone] at hq
      cases hq

theorem stored_promise {m : EntryMng} {pp : Proposal} {h : Handled}
    (hs : Served m Saves.good pp .prepareReq h) (hin : InSync h.mng) (hpos : 0 < pp.pid)
    (hok : h.rsp.errcode = ErrCode.ok) (hst : h.rsp.pp.status = .promised) :
    ∃ y pr, h.mng.disk pp.pentry = some y ∧ y.accepted = none ∧ y.promised = some pr ∧
      pp.pid ≤ pr.pid := by
  obtain ⟨x, pr, hx, hnone, hpr, hle⟩ := hs.promises hpos hok hst
  have hc := hin.cached _ x hx
  cases hd : h.mng.disk pp.pentry with
  | none =>
    rw [hd] at hc
    rw [hc.2] at hpr
    cases hpr
  | some y =>
    rw [hd] at hc
    exact ⟨y, pr, rfl, hc.1.symm.trans hnone, hc.2.symm.trans hpr, hle⟩

theorem Keeper.step (h : s.Keeper i e a) (hsane : s.Sane) (hin : ∀ a i, InSync ((s.accs a).mngs i))
    (hs : s.step l = some s') (hk : Remembering s l s') : s'.Keeper i e a := by
  obtain ⟨new, hg⟩ := step_grows hs
  have hin' := inSync_step hin hsane.requests hs hk a i
  cases step_net hs with
  | other _ haccs hrsps hvotes =>
    refine h.frame (by rw [haccs]) (fun v hv _ => hvotes ▸ hv) fun x hx c hc _ => ?_
    rw [hrsps] at hx
    exact ⟨hx, hsane.request hg hx hc⟩
  | restart acc inst batch lastCommitted fuel m hm haccs hrsps hvotes =>
    refine h.frame ?_ (fun v hv _ => hvotes ▸ hv) fun x hx c hc _ => ?_
    · cases hsane.requests.step_mng hs a i with
      | same _ hm => rw [hm]
      | restart _ _ _ hm => rw [(loadAllFromDisk_fromLog (hk.logs _ _ _ _ _ rfl) hm).disk]
    · rw [hrsps] at hx
      exact ⟨hx, hsane.request hg hx hc⟩
  | deliver bid acc saves c hc haccs hrsps hvotes hbcasts =>
    obtain rfl := hk.saves _ _ _ rfl
    have hmem := List.mem_of_getElem? hc
    have hok := hsane.bcast hmem
    obtain ⟨hd, rt, hsv, hm, hans⟩ := hsane.requests.handled hmem acc Saves.good
    have hmng : ∀ j, (s'.accs acc).mngs j = Function.update (s.accs acc).mngs c.inst hd.mng j := by
      intro j
      rw [haccs, Function.update_self, hm]
    have hv : ∀ v ∈ s'.votes, v.At a i e → v ∈ s.votes ∨
        ((acc = a ∧ c.inst = i ∧ c.msg.pp.pentry = e) ∧ ∃ x q, hd.mng.disk e = some x ∧
          x.accepted = some q ∧ q.pid = v.pid ∧ q.valueId = v.valueId) := by
      intro v hv hat
      rw [hvotes] at hv
      refine (List.mem_append.mp hv).imp id fun hv => ?_
      obtain ⟨rfl, _, x, q, hx, hq⟩ := mem_voteOf hv
      rw [hsane.requests.mngOf hmem, hm, Function.update_self] at hx
      obtain ⟨ha, hi, he⟩ := hat
      exact ⟨⟨ha, hok.pinst.symm.trans hi, he⟩, x, q, he ▸ hx, hq⟩
    have hr : ∀ x ∈ s'.rsps, ∀ c', s'.bcasts[x.bid]? = some c' → x.Promises c' a i e →
        (x ∈ s.rsps ∧ s.bcasts[x.bid]? = some c') ∨
        ((acc = a ∧ c.inst = i ∧ c.msg.pp.pentry = e) ∧ c' = c ∧ c.msg.type = .prepareReq ∧
          hd.rsp.errcode = ErrCode.ok ∧ hd.rsp.pp.status = .promised) := by
      intro x hx c' hc' hp
      have hx' := hx
      rw [hrsps] at hx
      rcases List.mem_append.mp hx with hx | hx
      · exact .inl ⟨hx, hsane.request hg hx hc'⟩
      · have hsane' : s'.Sane := hsane.step hs fun _ _ _ _ _ hl => by cases hl
        have hprep := (hsane'.requests.answerOk hx' hc').prepare hp.type
        obtain ⟨rsp, hrsp, rfl⟩ := List.mem_map.mp hx
        rw [hbcasts, hc] at hc'
        obtain rfl := Option.some.inj hc'
        rw [Option.mem_toList, hans] at hrsp
        have hmsg := Option.some.inj hrsp
        have herr := hp.errcode
        have hst := hp.status
        rw [← hmsg] at herr hst
        exact .inr ⟨⟨hp.acc, hp.inst, hp.entry⟩, rfl, hprep, herr, hst⟩
    by_cases hmain : acc = a ∧ c.inst = i ∧ c.msg.pp.pentry = e
    · obtain ⟨rfl, rfl, rfl⟩ := hmain
      have hself : (s'.accs acc).mngs c.inst = hd.mng := by rw [hmng, Function.update_self]
      rw [hself] at hin'
      refine h.stored (by rw [hself]) (fun hP hcarry => ?_) (fun v hvm hat => (hv v hvm hat).imp id (·.2))
        fun x hx c' hc' hp => (hr x hx c' hc' hp).imp id ?_
      · exact hsv.keepsStored (hin acc c.inst) (hk.opened _ _ _ c rfl hc) (fun x x' => hP x _ x') hcarry
      · intro hheld
        obtain ⟨_, rfl, ht, herr, hst⟩ := hheld
        rw [ht] at hsv
        exact stored_promise hsv hin' hp.pos herr hst
    · refine h.frame ?_ (fun v hm hat => (hv v hm hat).resolve_right fun hh => hmain hh.1)
        fun x hx c' hc' hp => (hr x hx c' hc' hp).resolve_right fun hh => hmain hh.1
      by_cases ha : acc = a
      · subst ha
        rw [hmng]
        by_cases hi : i = c.inst
        · subst hi
          rw [Function.update_self]
          exact (hsv.other fun he => hmain ⟨rfl, rfl, he.symm⟩).1
        · rw [Function.update_of_ne hi]
      · rw [haccs, Function.update_of_ne (Ne.symm ha)]

end

theorem keeper_inductive {ok : Synod cfg → SynodOp cfg → Synod cfg → Prop}
    (hkeep : ∀ s l s', ok s l s' → Remembering s l s') :
    ((sys cfg).restrict ok).Inductive fun s =>
      s.Sane ∧ (∀ a i, InSync ((s.accs a).mngs i)) ∧ ∀ i e a, s.Keeper i e a := by
  refine (sane_inductive fun s l s' hok => (hkeep s l s' hok).logs).rel ?_ ?_
  · intro s hinit
    obtain ⟨sec, rfl⟩ := hinit
    refine ⟨fun a i => ⟨fun k x hx => ?_, fun k y hy => ?_⟩, fun i e a => ⟨?_, ?_, ?_, ?_⟩⟩
    · exact absurd hx (by simp [start, Acceptor.new, EntryMng.cached, EntryMng.new])
    · cases hy
    · intro v hv
      cases hv
    · intro x hx
      cases hx
    · intro v hv
      cases hv
    · intro x hx
      cases hx
  · intro s l s' hsane _ h hstep
    obtain ⟨hs, hok⟩ := hstep
    obtain ⟨hin, hkeeper⟩ := h
    have hk := hkeep s l s' hok
    exact ⟨inSync_step hin hsane.requests hs hk, fun i e a => (hkeeper i e a).step hsane hin hs hk⟩

/-- Acceptors may restart and evict entries: where saves succeed, restarts read the whole
log and opened entries come back, one proposal is chosen at each entry. -/
theorem agreement_restarts {s : Synod cfg} (hcookie : cfg.pidCookie = 0)
    (h : ((sys cfg).restrict fun s l s' => Remembering s l s' ∧
      SkipsWithin (lowest cfg) s l).Reachable s)
    (honce : s.called.Nodup) : s.Agreement := by
  have hlog : ∀ s l s', Remembering s l s' ∧ SkipsWithin (lowest cfg) s l → ReadsLogs s l s' :=
    fun s l s' hok => hok.1.logs
  obtain ⟨hsane, htally⟩ := (tally_inductive hlog fun _ _ _ hok => hok.2).reachable s h
  obtain ⟨_, hstored⟩ := (stored_inductive hlog).reachable s h
  obtain ⟨_, _, hkeeper⟩ := (keeper_inductive fun _ _ _ hok => hok.1).reachable s h
  exact agreement_of_sworn hcookie hsane hstored (htally honce) fun i e a => (hkeeper i e a).sworn

/-- Checks the steps of such a run that are no restarts. -/
def remembering (s : Synod cfg) : SynodOp cfg → Bool
  | .deliver bid acc saves => saves = Saves.good ∧ ∀ c ∈ s.bcasts[bid]?,
      (((s.accs acc).mngs c.inst).cached c.msg.pp.pentry).isSome ∨
        ((s.accs acc).mngs c.inst).Reads c.msg.pp.pentry ∨
        (((s.accs acc).mngs c.inst).disk c.msg.pp.pentry).isNone
  | l => !isRestart l

theorem remembering_of_remembering {s s' : Synod cfg} {l : SynodOp cfg} (h : remembering s l = true) :
    Remembering s l s' := by
  cases l with
  | deliver bid acc saves =>
    obtain ⟨hgood, hopen⟩ := of_decide_eq_true h
    refine ⟨?_, readsLogs_of_not_restart rfl, ?_⟩
    · intro _ _ _ hl
      cases hl
      exact hgood
    · intro _ _ _ c hl hc _
      cases hl
      exact (hopen c hc).imp Option.isSome_iff_ne_none.mp fun h => h.imp id Option.isNone_iff_eq_none.mp
  | restart => cases h
  | _ => exact ⟨(fun _ _ _ hl => by cases hl), readsLogs_of_not_restart h, fun _ _ _ _ hl => by cases hl⟩

/-- Acceptor 0 restarts on its instance 0, where nothing is stored. -/
def restartEmpty : SynodOp tinyCfg := .restart ⟨0, first_of_three⟩ 0 (fun _ _ => .error ErrCode.entryNotExist) (.ok 0) 1

def restarted : Synod tinyCfg := ((start tinyCfg fun _ => 7).step restartEmpty).get (by decide +kernel)

/-- `twoRounds`, where the entry of the second evicts that of the first. -/
def evictingRounds : List (SynodOp tinyCfg) :=
  [.propose ⟨0, first_of_three⟩ 0 [7] 0 0 false, .deliver 0 ⟨0, first_of_three⟩ Saves.good,
    .deliver 0 ⟨1, second_of_three⟩ Saves.good, .reply 0, .reply 1, .deliver 1 ⟨0, first_of_three⟩ Saves.good,
    .deliver 1 ⟨1, second_of_three⟩ Saves.good, .reply 2, .reply 3,
    .propose ⟨0, first_of_three⟩ 0 [8] 0 1 false, .deliver 3 ⟨0, first_of_three⟩ Saves.good,
    .deliver 3 ⟨1, second_of_three⟩ Saves.good, .reply 4, .reply 5]

def ranEvicting : Synod tinyCfg :=
  (LTS.exec (fun s l => (s.step l).filter fun _ => remembering s l && skipsLowest s l) restarted
    evictingRounds).get (by decide +kernel)

/-- The restart of an acceptor with an empty storage reads its whole log. -/
theorem remembering_restartEmpty {s : Synod tinyCfg} :
    Remembering (start tinyCfg fun _ => 7) restartEmpty s := by
  refine ⟨(fun _ _ _ hl => by cases hl), ?_, fun _ _ _ _ hl => by cases hl⟩
  intro _ _ _ _ _ hl
  cases hl
  exact ⟨(fun _ _ h => by cases h), (fun _ _ h => by cases h), fun _ _ _ _ _ => rfl⟩

theorem agreement_restarts_two : ((ranEvicting.accs ⟨0, first_of_three⟩).mngs 0).cached 1 = none ∧
    ranEvicting.bcasts.map (·.msg.type) = [.prepareReq, .acceptReq, .chosenReq, .acceptReq, .chosenReq] ∧
      ranEvicting.Agreement := by
  have hfirst : ((sys tinyCfg).restrict fun s l s' => Remembering s l s' ∧
      SkipsWithin (lowest tinyCfg) s l).step (start _ fun _ => 7) restartEmpty restarted :=
    ⟨(Option.some_get _).symm, remembering_restartEmpty, fun _ _ _ _ _ _ hl => by cases hl⟩
  have hrest : ((sys tinyCfg).restrict fun s l s' => Remembering s l s' ∧
      SkipsWithin (lowest tinyCfg) s l).Run restarted evictingRounds ranEvicting := by
    refine LTS.run_of_guarded (g := fun s l _ => remembering s l && skipsLowest s l) (fun s l s' _ hk => ?_)
      (Option.some_get _).symm
    obtain ⟨h1, h2⟩ := Bool.and_eq_true_iff.mp hk
    exact ⟨remembering_of_remembering h1, skipsWithin_of_skipsLowest h2⟩
  exact ⟨by decide +kernel, by decide +kernel,
    agreement_restarts rfl ⟨_, _, ⟨_, rfl⟩, .cons hfirst hrest⟩ (by decide +kernel)⟩

end Synod
end Quarrel
