import Noxara.SalesDeals
import Noxara.TransactionRecheck

/-! Requests on one deal side by side: its stage history as a path in its pipeline, and how often it is
announced as won. -/
namespace Noxara.Sales

open Transaction
open Finance (Uuid Formats canonicalFormats AppError PublicId parsePublicId parseOptionalPublicId)

def SalesEvent.wins (publicId : String) : SalesEvent → Bool
  | dealWon id _ _ => id = publicId
  | _ => false

/-- What the row of a deal guards: the deal, its history, how often it was announced as won, and the pipelines
with their stages. -/
structure DealPart where
  deal : Option DealRow
  history : List StageHistoryRow
  wins : Nat
  stages : Table Uuid StageRow
  pipelines : Table Uuid PipelineRow

def SalesDb.historyOf (dealId : Uuid) (s : SalesDb) : List StageHistoryRow :=
  s.stageHistory.filter (·.dealId = dealId)

def SalesDb.dealPart (dealId : Uuid) (publicId : String) (s : SalesDb) : DealPart :=
  ⟨s.deals.find? dealId, s.historyOf dealId, s.events.countP (·.wins publicId), s.stages, s.pipelines⟩

/-- Each row starts at the stage where the one before ended. -/
def Path : Uuid → List StageHistoryRow → Uuid → Prop
  | a, [], b => a = b
  | a, h :: hs, b => h.fromStageId = some a ∧ Path h.toStageId hs b

theorem Path.snoc {a b : Uuid} {hs : List StageHistoryRow} (p : Path a hs b) {h : StageHistoryRow}
    (hfrom : h.fromStageId = some b) : Path a (hs ++ [h]) h.toStageId := by
  induction hs generalizing a with
  | nil =>
    cases p
    exact ⟨hfrom, rfl⟩
  | cons x xs ih => exact ⟨p.1, ih p.2⟩

theorem Path.end_mem {a b : Uuid} {hs : List StageHistoryRow} (p : Path a hs b) :
    b ∈ a :: hs.map (·.toStageId) := by
  induction hs generalizing a with
  | nil =>
    cases p
    exact List.mem_singleton_self _
  | cons x xs ih =>
    rw [List.map_cons]
    exact List.mem_cons_of_mem _ (ih p.2)

def StageOf (stages : Table Uuid StageRow) (pipelineId k : Uuid) : Prop :=
  ∃ st, stages.find? k = some st ∧ st.pipelineId = pipelineId

/-- The history leads to the stage of the deal, by stages of its pipeline. -/
def DealPart.OnPath (p : DealPart) (row : DealRow) : Prop :=
  ∃ first, Path first p.history row.stageId ∧
    ∀ k ∈ first :: p.history.map (·.toStageId), StageOf p.stages row.pipelineId k

/-- Nothing has changed since `start` while there is no deal, and a deal is on its path. -/
structure DealPart.Sound (publicId : String) (p start : DealPart) : Prop where
  unopened : p.deal = none → p = start
  named : ∀ row, p.deal = some row → row.publicId = publicId
  path : ∀ row, p.deal = some row → p.OnPath row

/-- What is there stays: the deal in its pipeline, and the stages. -/
structure DealPart.Extends (a b : DealPart) : Prop where
  deal : ∀ row, a.deal = some row → ∃ next, b.deal = some next ∧ next.pipelineId = row.pipelineId
  stages : ∀ k st, a.stages.find? k = some st → b.stages.find? k = some st

def DealPart.won (p : DealPart) : Bool := p.deal.any (·.status = .won)

/-- What a request makes of a deal: it announces that the deal is won as often as it makes it so. -/
structure Moves (publicId : String) (start a b : DealPart) : Prop where
  sound : b.Sound publicId start
  extends_ : a.Extends b
  wins : b.wins = a.wins + if !a.won && b.won then 1 else 0

def dealGuard (dealId : Uuid) (publicId : String) (start : DealPart) : Guard SalesDb SalesLock DealPart :=
  ⟨.deal dealId, SalesDb.dealPart dealId publicId, fun p => p.Sound publicId start⟩

theorem DealPart.Extends.refl (a : DealPart) : a.Extends a :=
  ⟨fun row hrow => ⟨row, hrow, rfl⟩, fun _ _ h => h⟩

theorem DealPart.Extends.trans {a b c : DealPart} (h : a.Extends b) (h' : b.Extends c) : a.Extends c := by
  refine ⟨fun row hrow => ?_, fun k st hst => h'.stages k st (h.stages k st hst)⟩
  obtain ⟨next, hnext, hp⟩ := h.deal row hrow
  obtain ⟨last, hlast, hq⟩ := h'.deal next hnext
  exact ⟨last, hlast, hq.trans hp⟩

theorem DealPart.OnPath.stage {p : DealPart} {row : DealRow} (h : p.OnPath row) :
    StageOf p.stages row.pipelineId row.stageId := by
  obtain ⟨first, hpath, hall⟩ := h
  exact hall _ hpath.end_mem

theorem DealPart.won_eq {p : DealPart} {row : DealRow} (h : p.deal = some row) :
    p.won = decide (row.status = .won) := by
  simp [DealPart.won, h]

def Moved (fromStage toStage : Uuid) (old new : List StageHistoryRow) : Prop :=
  (toStage = fromStage ∧ new = old) ∨
    ∃ h : StageHistoryRow, h.fromStageId = some fromStage ∧ h.toStageId = toStage ∧ new = old ++ [h]

theorem DealPart.OnPath.moved {p : DealPart} {row next : DealRow} (h : p.OnPath row) {new : List StageHistoryRow}
    (hmoved : Moved row.stageId next.stageId p.history new) (hpipeline : next.pipelineId = row.pipelineId)
    (hstage : StageOf p.stages row.pipelineId next.stageId) (n : Nat) :
    DealPart.OnPath { p with deal := some next, history := new, wins := n } next := by
  obtain ⟨first, hpath, hall⟩ := h
  rcases hmoved with ⟨hsame, rfl⟩ | ⟨r, hfrom, hto, rfl⟩
  · exact ⟨first, by rw [hsame]; exact hpath, by rw [hpipeline]; exact hall⟩
  · refine ⟨first, ?_, fun k hk => ?_⟩
    · rw [← hto]
      exact hpath.snoc hfrom
    · rw [hpipeline]
      simp only [List.map_append, List.map_cons, List.map_nil, ← List.cons_append, List.mem_append,
        List.mem_singleton] at hk
      rcases hk with hk | rfl
      · exact hall k hk
      · rw [hto]
        exact hstage

section
variable {dealId : Uuid} {publicId : String} {start : DealPart} {A : List DealPart → DealPart → Prop}
  {eff : DealPart → DealPart} {seen : List DealPart}

theorem rechecks_updateDealRow_bind {α : Type} {change : DealRow → DealRow} {f : DealRow → SalesTx α}
    (hf : ∀ base row, base.Sound publicId start → A seen base → base.deal = some row →
      (f (change row)).Held (SalesDb.dealPart dealId publicId) (Moves publicId start base)
        { base with deal := some (change row) }) :
    (updateDealRow dealId change >>= f).Rechecks (dealGuard dealId publicId start) A (Moves publicId start)
      (fun p => p) seen := by
  refine .executeReturning_bind (fun v => List.mem_singleton_self _) fun v base new hinv hbase hA hc => ?_
  have hdeal : base.deal = v.deals.find? dealId := congrArg DealPart.deal hbase
  cases hfind : v.deals.find? dealId with
  | none =>
    simp only [hfind] at hc
    cases hc
  | some old =>
    simp only [hfind] at hc
    obtain ⟨-, -, hnew⟩ := Finance.bind_ok.mp hc
    cases hnew
    have hold : base.deal = some old := hdeal.trans hfind
    refine ⟨_, fun s hs => ?_, hf base old hinv hA hold⟩
    have hs : s.dealPart dealId publicId = base := hs.trans hbase.symm
    have hrow : s.deals.find? dealId = some old := by
      rw [← hold, ← hs]
      rfl
    rw [← hs]
    simp [dealGuard, SalesDb.dealPart, SalesDb.setDeals, SalesDb.historyOf, Table.find?_modify_self, hrow]

theorem held_recordMove_bind [Formats] {α : Type} {ctx : RequestCtx} {fromStage toStage : Uuid}
    {note : Option String} {G : DealPart → Prop} {cur : DealPart} {f : Unit → SalesTx α}
    (hf : ∀ new, Moved fromStage toStage cur.history new →
      (f ()).Held (SalesDb.dealPart dealId publicId) G { cur with history := new }) :
    (recordMove ctx dealId fromStage toStage note >>= f).Held (SalesDb.dealPart dealId publicId) G cur := by
  unfold recordMove
  split_ifs with hsame
  · exact hf cur.history (.inl ⟨hsame, rfl⟩)
  · let row : StageHistoryRow :=
      ⟨"dsh_" ++ Formats.uuidDisplay (ctx.fresh 3), dealId, some fromStage, toStage, some ctx.actorUserId, note⟩
    refine .execute_bind (fun v s hs => ?_) (hf (cur.history ++ [row]) (.inr ⟨row, rfl, rfl, rfl⟩))
    rw [← hs]
    simp [SalesDb.dealPart, SalesDb.historyOf, row]

theorem held_insertSalesEvent_bind {α : Type} {event : SalesEvent} {G : DealPart → Prop} {cur : DealPart}
    {f : Unit → SalesTx α}
    (hf : (f ()).Held (SalesDb.dealPart dealId publicId) G
      { cur with wins := cur.wins + if event.wins publicId then 1 else 0 }) :
    (insertSalesEvent event >>= f).Held (SalesDb.dealPart dealId publicId) G cur := by
  refine .execute_bind (fun v s hs => ?_) hf
  rw [← hs]
  simp [SalesDb.dealPart, SalesDb.historyOf, List.countP_append, List.countP_cons]

section
variable [Formats]

/-- The stage that the request has read is still the deal's. -/
def SameStage (seen : List DealPart) (now : DealPart) : Prop :=
  ∀ p row, seen.getLast? = some p → p.deal = some row → ∃ r, now.deal = some r ∧ r.stageId = row.stageId

/-- The condition on a statement that takes the row of the deal. -/
def DealRequest.InStep (o : DealRequest) (seen : List DealPart) (now : DealPart) : Prop :=
  match o with
  | create _ body => ∀ given k, parseOptionalPublicId .pipeline body.pipelineId = .ok given →
      parseOptionalPublicId .stage body.stageId = .ok (some k) →
      ∃ p, given.or (firstPipeline now.pipelines) = some p ∧ StageOf now.stages p k
  | update _ _ body => SameStage seen now ∧ ∀ s k row, body.stageId = some s → parsePublicId .stage s = .ok k →
      now.deal = some row → StageOf now.stages row.pipelineId k
  | win _ _ _ => SameStage seen now ∧ now.won = false
  | lose _ _ _ => SameStage seen now

def DealRequest.Remembers (o : DealRequest) (seen : List DealPart) (now : DealPart) : Prop :=
  match o with
  | create _ _ => ∀ p ∈ seen, p.deal.isSome → now.deal.isSome
  | _ => ∀ p ∈ seen, p.Extends now

/-- The request is about the deal; the one that opens it draws its id. -/
def DealRequest.On (dealId : Uuid) : DealRequest → Prop
  | create ctx _ => ctx.fresh 0 = dealId
  | update _ id _ | win _ id _ | lose _ id _ => parsePublicId .deal id = .ok dealId

omit [Formats] in
theorem Moves.of_change {base : DealPart} {row next : DealRow} {new : List StageHistoryRow} {n : Nat}
    (hinv : base.Sound publicId start) (hrow : base.deal = some row) (hid : next.publicId = row.publicId)
    (hpipeline : next.pipelineId = row.pipelineId) (hmoved : Moved row.stageId next.stageId base.history new)
    (hstage : StageOf base.stages row.pipelineId next.stageId)
    (hn : n = base.wins + if !base.won && decide (next.status = .won) then 1 else 0) :
    Moves publicId start base { base with deal := some next, history := new, wins := n } where
  sound := {
    unopened := fun h => by cases h
    named := fun r hr => by
      cases hr
      exact hid.trans (hinv.named row hrow)
    path := fun r hr => by
      cases hr
      exact (hinv.path row hrow).moved hmoved hpipeline hstage n }
  extends_ := {
    deal := fun r hr => by
      cases hrow.symm.trans hr
      exact ⟨next, rfl, hpipeline⟩
    stages := fun _ _ h => h }
  wins := hn

theorem rechecks_namedDeal_bind {α : Type} {ctx : RequestCtx} {id : String} {f : Uuid × DealRow → SalesTx α}
    (hid : parsePublicId .deal id = .ok dealId)
    (hf : ∀ (p : DealPart) row, p.deal = some row → p.Sound publicId start →
      (f (dealId, row)).Rechecks (dealGuard dealId publicId start) A (Moves publicId start) (fun p => p) [p]) :
    (namedDeal ctx id >>= f).Rechecks (dealGuard dealId publicId start) A (Moves publicId start)
      (fun p => p) [] := by
  unfold namedDeal
  simp only [bind_assoc]
  refine .ofExcept_bind fun k hk => .ofExcept_bind fun _ _ => ?_
  cases hid.symm.trans hk
  refine .query_bind fun v base hinv hbase => .okOr_bind fun row hrow => .ofExcept_bind fun _ _ => ?_
  refine hf _ row hrow ?_
  have hpart : v.dealPart dealId publicId = base := hbase.symm
  change (v.dealPart dealId publicId).Sound publicId start
  rw [hpart]
  exact hinv

theorem editedDeal_keeps {row : DealRow} {body : UpdateDealRequest} {change : DealRow → DealRow}
    (h : editedDeal row body = .ok change) (r : DealRow) :
    (change r).publicId = r.publicId ∧ (change r).pipelineId = r.pipelineId ∧ (change r).status = r.status := by
  unfold editedDeal at h
  obtain ⟨_, _, h⟩ := Finance.bind_ok.mp h
  obtain ⟨_, _, h⟩ := Finance.bind_ok.mp h
  cases h
  exact ⟨rfl, rfl, rfl⟩

theorem rechecks_updateDeal {ctx : RequestCtx} {id : String} {body : UpdateDealRequest}
    (hid : parsePublicId .deal id = .ok dealId) {o : DealRequest} (ho : o = .update ctx id body) :
    (updateDeal ctx id body).Rechecks (dealGuard dealId publicId start)
      (fun seen now => o.InStep seen now ∧ o.Remembers seen now) (Moves publicId start) (fun p => p) [] := by
  subst ho
  refine rechecks_namedDeal_bind hid fun p row hp hsound => .ofExcept_bind fun _ _ => ?_
  refine .ofExcept_bind fun newStage hnew => .ofExcept_bind fun change hchange => ?_
  refine rechecks_updateDealRow_bind fun base r hinv hA hr => held_recordMove_bind fun history hmoved => ?_
  obtain ⟨⟨hsame, hgiven⟩, -⟩ := hA
  obtain ⟨r', hr', hstage⟩ := hsame p row rfl hp
  cases hr.symm.trans hr'
  obtain ⟨hkeepId, hkeepPipeline, hkeepStatus⟩ := editedDeal_keeps hchange r
  rw [← hstage] at hmoved
  refine .of_change hinv hr hkeepId hkeepPipeline hmoved ?_ ?_
  · cases hstageId : body.stageId with
    | none =>
      rw [hstageId] at hnew
      cases hnew
      change StageOf base.stages r.pipelineId row.stageId
      rw [← hstage]
      exact (hinv.path r hr).stage
    | some s =>
      rw [hstageId] at hnew
      exact hgiven s newStage r hstageId hnew hr
  · have hwon : decide ((change r).status = .won) = base.won := by rw [hkeepStatus, DealPart.won_eq hr]
    change base.wins = _ + if !base.won && decide ((change r).status = .won) then 1 else 0
    simp [hwon]

theorem rechecks_closeDeal {o : DealRequest} {ctx : RequestCtx} {id : String} {status : DealStatus}
    {ends : StageRow → Bool} {change : DealRow → DealRow} {note : String} {event : DealRow → SalesEvent}
    (hid : parsePublicId .deal id = .ok dealId)
    (hstep : ∀ seen now, o.InStep seen now → SameStage seen now ∧ (status = .won → now.won = false))
    (hmem : ∀ seen now, o.Remembers seen now → ∀ p ∈ seen, p.Extends now)
    (hkeeps : ∀ r, (change r).publicId = r.publicId ∧ (change r).pipelineId = r.pipelineId ∧
      (change r).status = status)
    (hevent : ∀ r, r.publicId = publicId → (event r).wins publicId = decide (status = .won)) :
    (closeDeal ctx id status ends change note event).Rechecks (dealGuard dealId publicId start)
      (fun seen now => o.InStep seen now ∧ o.Remembers seen now) (Moves publicId start) (fun p => p) [] := by
  refine rechecks_namedDeal_bind hid fun p row hp hsound => ?_
  dsimp only
  split_ifs with hstatus
  · exact fun _ _ => rfl
  · refine .query_bind fun v _ _ _ => rechecks_updateDealRow_bind fun base r hinv hA hr => ?_
    refine held_recordMove_bind fun history hmoved => held_insertSalesEvent_bind ?_
    obtain ⟨hsame, hopen⟩ := hstep _ _ hA.1
    have hextends := hmem _ _ hA.2
    obtain ⟨r', hr', hstage⟩ := hsame p row rfl hp
    cases hr.symm.trans hr'
    obtain ⟨hkeepId, hkeepPipeline, hkeepStatus⟩ := hkeeps r
    have hfrom : Moved r.stageId ((firstStage v.stages row.pipelineId ends).getD row.stageId) base.history
        history := by
      rw [hstage]
      exact hmoved
    refine .of_change hinv hr hkeepId hkeepPipeline hfrom ?_ ?_
    · obtain ⟨x, hx, hpipeline⟩ := (hextends p (List.mem_cons_of_mem _ (List.mem_singleton_self _))).deal row hp
      cases hr.symm.trans hx
      change StageOf base.stages r.pipelineId ((firstStage v.stages row.pipelineId ends).getD row.stageId)
      cases hfirst : firstStage v.stages row.pipelineId ends with
      | none =>
        rw [Option.getD_none, ← hstage]
        exact (hinv.path r hr).stage
      | some k =>
        obtain ⟨st, hst, hpl⟩ := of_firstStage hfirst
        exact ⟨st, (hextends _ List.mem_cons_self).stages k st hst, hpl.trans hpipeline.symm⟩
    · have hevents := hevent (movedDeal ((firstStage v.stages row.pipelineId ends).getD row.stageId) change r)
        (hkeepId.trans (hinv.named r hr))
      change base.wins + (if (event (movedDeal _ change r)).wins publicId then 1 else 0) =
        base.wins + if !base.won && decide ((change r).status = .won) then 1 else 0
      rw [hevents, hkeepStatus]
      by_cases hw : status = .won
      · simp [hw, hopen hw]
      · simp [hw]

theorem rechecks_winDeal {o : DealRequest} {ctx : RequestCtx} {id : String} {reason : Option String}
    (hid : parsePublicId .deal id = .ok dealId) (ho : o = .win ctx id reason) :
    (winDeal ctx id reason).Rechecks (dealGuard dealId publicId start)
      (fun seen now => o.InStep seen now ∧ o.Remembers seen now) (Moves publicId start) (fun p => p) [] := by
  subst ho
  refine rechecks_closeDeal hid (fun _ _ h => ⟨h.1, fun _ => h.2⟩) (fun _ _ h => h)
    (fun _ => ⟨rfl, rfl, rfl⟩) fun r hr => ?_
  simp [SalesEvent.wins, hr]

theorem rechecks_loseDeal {o : DealRequest} {ctx : RequestCtx} {id : String} {reason : Option String}
    (hid : parsePublicId .deal id = .ok dealId) (ho : o = .lose ctx id reason) :
    (loseDeal ctx id reason).Rechecks (dealGuard dealId publicId start)
      (fun seen now => o.InStep seen now ∧ o.Remembers seen now) (Moves publicId start) (fun p => p) [] := by
  subst ho
  refine rechecks_closeDeal hid (fun _ _ h => ⟨h, fun hwon => by cases hwon⟩) (fun _ _ h => h)
    (fun _ => ⟨rfl, rfl, rfl⟩) fun r _ => ?_
  simp [SalesEvent.wins]

/-- What a request that opens a deal has made of the part so far: the pipeline is the one given or the
organisation's own. -/
structure Opening (given : Option Uuid) (start : DealPart) (pipelineId : Uuid) (eff : DealPart → DealPart)
    (seen : List DealPart) : Prop where
  deal : ∀ p, (eff p).deal = p.deal
  history : ∀ p, (eff p).history = p.history
  wins : ∀ p, (eff p).wins = p.wins
  stages : ∀ p k st, p.stages.find? k = some st → (eff p).stages.find? k = some st
  chosen : (∀ p ∈ seen, p.deal = none) → ∀ pl, given.or (firstPipeline start.pipelines) = some pl →
    pl = pipelineId

def withStages (stages : List (Uuid × StageRow)) (p : DealPart) : DealPart :=
  { p with stages := stages.foldl (fun t s => t.insert s.1 s.2) p.stages }

omit [Formats] in
theorem find?_withStages {stages : List (Uuid × StageRow)} {p : DealPart} {k : Uuid} {st : StageRow}
    (h : p.stages.find? k = some st) : (withStages stages p).stages.find? k = some st := by
  have hfold : ∀ t : Table Uuid StageRow, t.find? k = some st →
      (stages.foldl (fun t s => t.insert s.1 s.2) t).find? k = some st := by
    induction stages with
    | nil => exact fun _ ht => ht
    | cons s ss ih => exact fun t ht => ih _ (Table.find?_insert_of_some ht _)
  exact hfold _ h

omit [Formats] in
theorem rechecks_insertStages_bind {α : Type} {stages : List (Uuid × StageRow)} {f : Unit → SalesTx α}
    {G : DealPart → DealPart → Prop}
    (hf : ∀ later, (∀ p ∈ seen, p ∈ later) → (f ()).Rechecks (dealGuard dealId publicId start) A G
      (withStages stages ∘ eff) later) :
    (Prog.each insertStage stages >>= f).Rechecks (dealGuard dealId publicId start) A G eff seen := by
  induction stages generalizing eff seen with
  | nil => exact hf seen fun _ h => h
  | cons s ss ih =>
    rw [Prog.each_cons_bind]
    refine .before_bind (m := withStages [s]) (fun v hk => ?_) (fun _ _ => rfl) fun v => ih fun later hlater => ?_
    · simp [dealGuard] at hk
    · exact hf later fun p hp => hlater p (List.mem_cons_of_mem _ hp)

omit [Formats] in
theorem part_eq_start (eff : DealPart → DealPart) {v : SalesDb} {base : DealPart} (hinv : base.Sound publicId start)
    (hdeal : (eff base).deal = base.deal) (hbase : eff base = (dealGuard dealId publicId start).part v)
    (hnone : ((dealGuard dealId publicId start).part v).deal = none) :
    (dealGuard dealId publicId start).part v = eff start := by
  have hbaseNone : base.deal = none := by rw [← hdeal, hbase, hnone]
  rw [← hbase, hinv.unopened hbaseNone]

theorem rechecks_pipelineOr_bind {α : Type} {ctx : RequestCtx} {given : Option Uuid} {f : Uuid → SalesTx α}
    (hf : ∀ pipelineId eff seen, Opening given start pipelineId eff seen →
      (f pipelineId).Rechecks (dealGuard dealId publicId start) A (Moves publicId start) eff seen) :
    (pipelineOr ctx given >>= f).Rechecks (dealGuard dealId publicId start) A (Moves publicId start)
      (fun p => p) seen := by
  cases given with
  | some pl =>
    refine hf pl _ seen ⟨fun _ => rfl, fun _ => rfl, fun _ => rfl, fun _ _ _ h => h, fun _ x hx => ?_⟩
    cases hx
    rfl
  | none =>
    simp only [pipelineOr, ensureDefaultPipeline, bind_assoc]
    refine .query_bind fun v base hinv hbase => ?_
    have hstart : ((dealGuard dealId publicId start).part v).deal = none →
        (dealGuard dealId publicId start).part v = start := part_eq_start (fun p => p) hinv rfl hbase
    cases hfound : firstPipeline v.pipelines with
    | some id =>
      refine hf id _ _ ⟨fun _ => rfl, fun _ => rfl, fun _ => rfl, fun _ _ _ h => h, fun hnone x hx => ?_⟩
      rw [← hstart (hnone _ List.mem_cons_self)] at hx
      exact Option.some.inj (hx.symm.trans hfound)
    | none =>
      simp only [seedPipeline, bind_assoc]
      refine .before_bind (m := fun p => { p with pipelines := p.pipelines.insert (ctx.fresh 10) _ })
        (fun u hk => ?_) (fun _ _ => rfl) fun u => .query_bind fun u _ _ _ => ?_
      · simp [dealGuard] at hk
      · change Prog.Rechecks _ _ _ _ _ (Prog.bind (Prog.bind (Prog.each insertStage _) _) f)
        rw [Prog.bind_bind]
        refine rechecks_insertStages_bind fun later hlater => hf _ _ later ?_
        refine ⟨fun _ => rfl, fun _ => rfl, fun _ => rfl, fun p k st hst => find?_withStages hst,
          fun hnone x hx => ?_⟩
        have hmem : (dealGuard dealId publicId start).part v ∈ later := by
          refine hlater _ ?_
          simp
        rw [← hstart (hnone _ hmem)] at hx
        cases hx.symm.trans hfound

omit [Formats] in
theorem rechecks_stageOr_bind {α : Type} {given stage : Option Uuid} {pipelineId : Uuid} {f : Uuid → SalesTx α}
    (hopening : Opening given start pipelineId eff seen)
    (hf : ∀ stageId later, (∀ p ∈ seen, p ∈ later) → (stage = some stageId ∨ stage = none ∧
        ((∀ p ∈ later, p.deal = none) → StageOf (eff start).stages pipelineId stageId)) →
      (f stageId).Rechecks (dealGuard dealId publicId start) A (Moves publicId start) eff later) :
    (stageOr stage pipelineId >>= f).Rechecks (dealGuard dealId publicId start) A (Moves publicId start)
      eff seen := by
  cases stage with
  | some k => exact hf k seen (fun _ h => h) (.inl rfl)
  | none =>
    -- What either of the two queries finds is a stage of the pipeline.
    have hstage : ∀ (v : SalesDb) (base : DealPart) (p : StageRow → Bool) (k : Uuid) (later : List DealPart),
        base.Sound publicId start → eff base = (dealGuard dealId publicId start).part v →
        (dealGuard dealId publicId start).part v ∈ later → firstStage v.stages pipelineId p = some k →
        (∀ q ∈ later, q.deal = none) → StageOf (eff start).stages pipelineId k := by
      intro v base p k later hinv hbase hmem hfirst hnone
      rw [← part_eq_start eff hinv (hopening.deal base) hbase (hnone _ hmem)]
      exact of_firstStage hfirst
    simp only [stageOr, defaultOpenStage, bind_assoc]
    refine .query_bind fun v base hinv hbase => ?_
    cases hfound : firstStage v.stages pipelineId fun s => !s.isWon && !s.isLost with
    | some k =>
      refine hf k _ (fun p hp => List.mem_cons_of_mem _ hp) (.inr ⟨rfl, ?_⟩)
      exact hstage v base _ k _ hinv hbase List.mem_cons_self hfound
    | none =>
      refine .query_bind fun u base' hinv' hbase' => .okOr_bind fun k hk => ?_
      refine hf k _ (fun p hp => List.mem_cons_of_mem _ (List.mem_cons_of_mem _ hp)) (.inr ⟨rfl, ?_⟩)
      exact hstage u base' _ k _ hinv' hbase' List.mem_cons_self hk

omit [Formats] in
theorem keeps_insertCreated (event : SalesEvent) (h : event.wins publicId = false) :
    (insertSalesEvent event).Writes (Prog.Keeps (SalesDb.dealPart dealId publicId)) := by
  refine Prog.writes_execute (Prog.Keeps.id _) fun v _ s => ?_
  simp [SalesDb.dealPart, SalesDb.historyOf, List.countP_append, h]

omit [Formats] in
theorem keeps_putDealAnswer (scope : String) (key : Option String) (answer : SalesAnswer) :
    (putSalesAnswer scope key answer).Writes (Prog.Keeps (SalesDb.dealPart dealId publicId)) := by
  exact AnswerTable.writes_record (Prog.Keeps.id _) (fun _ _ _ _ => rfl) _ _ _

omit [Formats] in
theorem rechecks_createDealRow {ctx : RequestCtx} {row : DealRow} {given : Option Uuid}
    (hfresh : ctx.fresh 0 = dealId) (hempty : start.history = [])
      (hopening : Opening given start row.pipelineId eff seen)
    (hid : row.publicId = publicId) (hopen : row.status = .open)
    (hA : ∀ base, A seen base → base.deal = none → ∀ p ∈ seen, p.deal = none)
    (hstage : A seen start → (∀ p ∈ seen, p.deal = none) →
      StageOf (eff start).stages row.pipelineId row.stageId) :
    (createDealRow ctx row).Rechecks (dealGuard dealId publicId start) A (Moves publicId start) eff seen := by
  unfold createDealRow insertDeal
  rw [hfresh]
  refine .execute_bind (fun v => List.mem_singleton_self _) fun v base hinv hbase hmeets hc => ?_
  obtain ⟨hunused, -⟩ := ensure_bind_ok.mp hc
  have hnone : base.deal = none := by
    rw [← hopening.deal base, hbase]
    exact hunused
  have hstart : base = start := hinv.unopened hnone
  subst hstart
  refine ⟨{ eff base with deal := some row }, fun s hs => ?_, .of_writes ?_ ?_⟩
  · have hs : s.dealPart dealId publicId = eff base := hs.trans hbase.symm
    have hfind : s.deals.find? dealId = none := by
      rw [← hnone, ← hopening.deal base, ← hs]
      rfl
    rw [← hs]
    simp [dealGuard, SalesDb.dealPart, SalesDb.setDeals, SalesDb.historyOf, Table.find?_insert_self hfind]
  · exact .bind (keeps_insertCreated _ rfl) fun _ => .bind (Prog.writes_query (Prog.Keeps.id _) _) fun _ =>
      .bind (Prog.writes_okOr _ _) fun _ => .bind (keeps_putDealAnswer _ _ _) fun _ => trivial
  · have hhistory : (eff base).history = [] := (hopening.history base).trans hempty
    refine ⟨⟨fun h => ?_, fun r hr => ?_, fun r hr => ?_⟩, ⟨fun r hr => ?_, hopening.stages base⟩, ?_⟩
    · cases h
    · cases hr
      exact hid
    · cases hr
      refine ⟨row.stageId, ?_, fun k hk => ?_⟩
      · rw [hhistory]
        rfl
      · simp only [hhistory, List.map_nil, List.mem_singleton] at hk
        rw [hk]
        exact hstage hmeets (hA base hmeets hnone)
    · rw [hnone] at hr
      cases hr
    · simp [DealPart.won, hopen, hopening.wins base]

theorem newDeal_fields {ctx : RequestCtx} {body : CreateDealRequest} {customerId leadId : Option Uuid}
    {pipelineId stageId : Uuid} {row : DealRow}
    (h : newDeal ctx body customerId leadId pipelineId stageId = .ok row) :
    row.publicId = (PublicId.mk .deal (ctx.fresh 0)).asStr ∧ row.pipelineId = pipelineId ∧ row.stageId = stageId ∧
      row.status = .open := by
  unfold newDeal at h
  obtain ⟨_, _, h⟩ := Finance.bind_ok.mp h
  obtain ⟨_, _, h⟩ := Finance.bind_ok.mp h
  cases h
  exact ⟨rfl, rfl, rfl, rfl⟩

theorem rechecks_createDeal {ctx : RequestCtx} {body : CreateDealRequest} {o : DealRequest}
    (ho : o = .create ctx body) (hfresh : ctx.fresh 0 = dealId) (hid : (PublicId.mk .deal dealId).asStr = publicId)
    (hempty : start.history = []) :
    (createDeal ctx body).Rechecks (dealGuard dealId publicId start)
      (fun seen now => o.InStep seen now ∧ o.Remembers seen now) (Moves publicId start) (fun p => p) [] := by
  subst ho
  refine .ofExcept_bind fun _ _ => .require_bind fun _ => .replayOr (fun _ _ => rfl) fun _ => ?_
  refine .ofExcept_bind fun customerId _ => .ofExcept_bind fun leadId _ => .ofExcept_bind fun given hgiven => ?_
  refine rechecks_pipelineOr_bind fun pipelineId eff seen hopening => .ofExcept_bind fun stage hstage => ?_
  refine rechecks_stageOr_bind hopening fun stageId later hlater hchosen => .ofExcept_bind fun row hrow => ?_
  obtain ⟨hrowId, hrowPipeline, hrowStage, hrowOpen⟩ := newDeal_fields hrow
  have hopening' : Opening given start row.pipelineId eff later := by
    rw [hrowPipeline]
    exact ⟨hopening.deal, hopening.history, hopening.wins, hopening.stages,
      fun hnone => hopening.chosen fun p hp => hnone p (hlater p hp)⟩
  refine rechecks_createDealRow hfresh hempty hopening' ?_ hrowOpen ?_ ?_
  · rw [hrowId, hfresh, hid]
  · rintro base ⟨-, hremembers⟩ hnone p hp
    have hp' := hremembers p hp
    rw [hnone] at hp'
    simpa using hp'
  · rintro ⟨hinstep, -⟩ hnone
    rw [hrowPipeline, hrowStage]
    rcases hchosen with rfl | ⟨rfl, hfound⟩
    · obtain ⟨pl, hpl, st, hst, hof⟩ := hinstep given stageId hgiven hstage
      have hchosenPl : pl = row.pipelineId := hopening'.chosen hnone pl hpl
      refine ⟨st, hopening'.stages start stageId st hst, ?_⟩
      rw [hof, hchosenPl, hrowPipeline]
    · exact hfound hnone

theorem rechecks_dealRequest {o : DealRequest} (h : o.On dealId) (hid : (PublicId.mk .deal dealId).asStr = publicId)
    (hempty : start.history = []) :
    o.body.Rechecks (dealGuard dealId publicId start)
      (fun seen now => o.InStep seen now ∧ o.Remembers seen now) (Moves publicId start) (fun p => p) [] := by
  cases o with
  | create ctx body => exact rechecks_createDeal rfl h hid hempty
  | update ctx id body => exact rechecks_updateDeal h rfl
  | win ctx id reason => exact rechecks_winDeal h rfl
  | lose ctx id reason => exact rechecks_loseDeal h rfl

theorem reads_namedDeal_bind {α : Type} {ctx : RequestCtx} {id : String} {f : Uuid × DealRow → SalesTx α}
    (hid : parsePublicId .deal id = .ok dealId)
    (hf : ∀ row, (f (dealId, row)).Reads (dealGuard dealId publicId start) fun p => p) :
    (namedDeal ctx id >>= f).Reads (dealGuard dealId publicId start) fun p => p := by
  unfold namedDeal
  simp only [bind_assoc, hid]
  change Prog.Reads _ _ (Prog.ofExcept ctx.anyScope >>= _)
  refine .bind (.of_writes (Prog.writes_ofExcept _)) fun _ => ?_
  refine .bind (.of_writes (Prog.writes_query (Prog.Keeps.id _) _)) fun _ => ?_
  refine .bind (.of_writes (Prog.writes_okOr _ _)) fun row => ?_
  exact .bind (.of_writes (Prog.writes_ofExcept _)) fun _ => hf row

theorem reads_closeDeal {ctx : RequestCtx} {id : String} {status : DealStatus} {ends : StageRow → Bool}
    {change : DealRow → DealRow} {note : String} {event : DealRow → SalesEvent}
    (hid : parsePublicId .deal id = .ok dealId) :
    (closeDeal ctx id status ends change note event).Reads (dealGuard dealId publicId start) fun p => p := by
  refine reads_namedDeal_bind hid fun row => ?_
  dsimp only
  split_ifs
  · trivial
  · refine .bind (.of_writes (Prog.writes_query (Prog.Keeps.id _) _)) fun stage => ?_
    exact .executeReturning_bind fun v => List.mem_singleton_self _

theorem reads_createDeal {ctx : RequestCtx} {body : CreateDealRequest} (hfresh : ctx.fresh 0 = dealId) :
    (createDeal ctx body).Reads (dealGuard dealId publicId start) (·.deal) := by
  have hseed : ∀ stage, (insertStage stage).Writes
      (Prog.Keeps fun s => ((dealGuard dealId publicId start).part s).deal) :=
    fun stage => Prog.writes_execute (Prog.Keeps.id _) fun _ _ _ => rfl
  have hpipeline : ∀ given, (pipelineOr ctx given).Writes
      (Prog.Keeps fun s => ((dealGuard dealId publicId start).part s).deal) := by
    intro given
    cases given with
    | some p => trivial
    | none =>
      refine .bind (Prog.writes_query (Prog.Keeps.id _) _) fun found => ?_
      cases found with
      | some id => trivial
      | none =>
        refine .bind (Prog.writes_execute (Prog.Keeps.id _) fun _ _ _ => rfl) fun _ =>
          .bind (Prog.writes_query (Prog.Keeps.id _) _) fun seeds => ?_
        exact .bind (Prog.writes_each hseed _) fun _ => trivial
  have hstage : ∀ stage pipelineId, (stageOr stage pipelineId).Writes
      (Prog.Keeps fun s => ((dealGuard dealId publicId start).part s).deal) := by
    intro stage pipelineId
    cases stage with
    | some k => trivial
    | none =>
      refine .bind (.bind (Prog.writes_query (Prog.Keeps.id _) _) fun found => ?_) fun _ => Prog.writes_okOr _ _
      cases found with
      | some k => trivial
      | none => exact Prog.writes_query (Prog.Keeps.id _) _
  refine .bind (.of_writes (Prog.writes_ofExcept _)) fun _ => ?_
  refine .bind (.of_writes Prog.writes_require) fun _ => .replayOr ?_
  refine .bind (.of_writes (Prog.writes_ofExcept _)) fun _ => ?_
  refine .bind (.of_writes (Prog.writes_ofExcept _)) fun _ => ?_
  refine .bind (.of_writes (Prog.writes_ofExcept _)) fun given => ?_
  refine .bind (.of_writes (hpipeline given)) fun pipelineId => ?_
  refine .bind (.of_writes (Prog.writes_ofExcept _)) fun stage => ?_
  refine .bind (.of_writes (hstage stage pipelineId)) fun stageId => ?_
  refine .bind (.of_writes (Prog.writes_ofExcept _)) fun row => ?_
  unfold createDealRow insertDeal
  rw [hfresh]
  exact .execute_bind fun v => List.mem_singleton_self _

/-- The bodies of requests on the deal, with all that is known at their locks. -/
theorem disciplined_deals {ι : Type} {requests : ι → DealRequest} (hon : ∀ i, (requests i).On dealId)
    (hid : (PublicId.mk .deal dealId).asStr = publicId) {db : SalesDb} (hnone : start.deal = none)
    (hempty : start.history = []) (hstart : db.dealPart dealId publicId = start) :
    Watch.Disciplined (dealGuard dealId publicId start)
      (fun i seen now => (requests i).InStep seen now ∧ (requests i).Remembers seen now)
      (fun _ => Moves publicId start) (fun i => (requests i).body) db where
  rechecks i := rechecks_dealRequest (hon i) hid hempty
  start := by
    change (db.dealPart dealId publicId).Sound publicId start
    rw [hstart]
    refine ⟨fun _ => rfl, fun row hrow => ?_, fun row hrow => ?_⟩
    · rw [hnone] at hrow
      cases hrow
    · rw [hnone] at hrow
      cases hrow
  keeps _ _ _ _ h := h.sound

theorem remembers_of_reached {ι : Type} [DecidableEq ι] {requests : ι → DealRequest}
    (hon : ∀ i, (requests i).On dealId) {db : SalesDb} {A : ι → List DealPart → DealPart → Prop}
    {W : Watch ι SalesDb SalesLock AppError (Nat × SalesAnswer) DealPart}
    (hW : Watch.Reached (dealGuard dealId publicId start) A (fun i => (requests i).body) db W)
    (hp : Watch.Disciplined (dealGuard dealId publicId start) A (fun _ => Moves publicId start)
      (fun i => (requests i).body) db) {i : ι} {t : Thread SalesDb SalesLock AppError (Nat × SalesAnswer)}
    (ht : W.config.threads i = .running t) (hfree : (dealGuard dealId publicId start).key ∉ t.locks) :
    (requests i).Remembers (W.seen i) ((dealGuard dealId publicId start).part W.config.db) := by
  have hextends : (requests i).body.Reads (dealGuard dealId publicId start) (fun p => p) →
      ∀ p ∈ W.seen i, p.Extends ((dealGuard dealId publicId start).part W.config.db) := fun hi =>
    (hW.remembers hp (R := DealPart.Extends) hi DealPart.Extends.refl
      (fun _ _ _ _ _ hx hg => hx.trans hg.extends_) t ht hfree).2.2
  have hi := hon i
  cases hr : requests i with
  | create ctx body =>
    rw [hr] at hi
    have hreads : (requests i).body.Reads (dealGuard dealId publicId start) (·.deal) := by
      rw [hr]
      exact reads_createDeal hi
    refine (hW.remembers hp (R := fun d now => d.isSome → now.deal.isSome) hreads (fun _ h => h) ?_ t ht hfree).2.2
    intro _ d a b _ hx hg hd
    obtain ⟨row, hrow⟩ := Option.isSome_iff_exists.mp (hx hd)
    obtain ⟨next, hnext, -⟩ := hg.extends_.deal row hrow
    rw [hnext]
    rfl
  | update ctx id body =>
    rw [hr] at hi hextends
    refine hextends (reads_namedDeal_bind hi fun row => ?_)
    refine .bind (.of_writes (Prog.writes_ofExcept _)) fun _ => ?_
    refine .bind (.of_writes (Prog.writes_ofExcept _)) fun _ => ?_
    refine .bind (.of_writes (Prog.writes_ofExcept _)) fun _ => ?_
    exact .executeReturning_bind fun v => List.mem_singleton_self _
  | win ctx id reason =>
    rw [hr] at hi hextends
    exact hextends (reads_closeDeal hi)
  | lose ctx id reason =>
    rw [hr] at hi hextends
    exact hextends (reads_closeDeal hi)

end

end

/-- Requests on one deal that find it, when they write it, at the stage that they have read, write stages of its
pipeline only, and win it only while it is not won: its history is a path of stages of its pipeline that ends at
its stage, and it is announced as won as often as it becomes won. -/
theorem deal_history_is_path [Formats] {ι : Type} [DecidableEq ι] {dealId : Uuid} {publicId : String}
    {requests : ι → DealRequest} (hon : ∀ i, (requests i).On dealId)
    (hid : (PublicId.mk .deal dealId).asStr = publicId) {db : SalesDb} (hnew : db.deals.find? dealId = none)
    (hempty : db.historyOf dealId = []) (hevents : db.events.countP (·.wins publicId) = 0)
    {W : Watch ι SalesDb SalesLock AppError (Nat × SalesAnswer) DealPart}
    (hW : Watch.Reached (dealGuard dealId publicId (db.dealPart dealId publicId)) (fun i => (requests i).InStep)
      (fun i => (requests i).body) db W) :
    (W.config.db.deals.find? dealId = none ∧ W.config.db.historyOf dealId = [] ∨
      ∃ row, W.config.db.deals.find? dealId = some row ∧ (W.config.db.dealPart dealId publicId).OnPath row) ∧
    W.config.db.events.countP (·.wins publicId) =
      Watch.rises DealPart.won (W.past ++ [W.config.db.dealPart dealId publicId]) := by
  have hdisc := disciplined_deals hon hid hnew hempty rfl
  have hreached : Watch.Reached (dealGuard dealId publicId (db.dealPart dealId publicId))
      (fun i seen now => (requests i).InStep seen now ∧ (requests i).Remembers seen now)
      (fun i => (requests i).body) db W :=
    hW.strengthen (B := fun i => (requests i).Remembers) (fun _ _ _ => Iff.rfl)
      fun V hV i t ht hfree => remembers_of_reached hon hV hdisc ht hfree
  have hsound := hreached.inv hdisc
  constructor
  · cases hdeal : W.config.db.deals.find? dealId with
    | none =>
      have hstart : W.config.db.dealPart dealId publicId = db.dealPart dealId publicId := hsound.unopened hdeal
      exact .inl ⟨rfl, (congrArg DealPart.history hstart).trans hempty⟩
    | some row => exact .inr ⟨row, rfl, hsound.path row hdeal⟩
  · exact (hreached.rises_eq hdisc hevents fun _ _ _ _ hg => hg.wins).symm

/-- A pipeline with an open stage and one of deals that are won. -/
def SalesDb.wonPipeline [Formats] : SalesDb := { SalesDb.empty with
  pipelines := Table.empty.insert 20 ⟨(PublicId.mk .pipeline 20).asStr, "Default Pipeline", true, 0⟩
  stages := (Table.empty.insert 21 ⟨(PublicId.mk .stage 21).asStr, 20, "New", 0, 0, false, false⟩).insert 22
    ⟨(PublicId.mk .stage 22).asStr, 20, "Won", 1, 100, true, false⟩
  users := [2] }

def firstDeal [Formats] : String := (PublicId.mk .deal 100).asStr

def opened : DealRequest := .create (.nth 1) { name := "Support" }

def winning [Formats] (n : Nat) : DealRequest := .win (.nth n) firstDeal none

/-- Check the condition of a statement that takes the row of a deal. -/
def inStep (o : DealRequest) (seen : List DealPart) (now : DealPart) : Bool :=
  let sameStage := seen.getLast?.all fun p => p.deal.all fun row => now.deal.any (·.stageId = row.stageId)
  match o with
  | .create _ body => body.stageId.isNone
  | .update _ _ body => sameStage && body.stageId.isNone
  | .win _ _ _ => sameStage && !now.won
  | .lose _ _ _ => sameStage

theorem inStep_sound [Formats] {o : DealRequest} {seen : List DealPart} {now : DealPart}
    (h : inStep o seen now = true) : o.InStep seen now := by
  have hsame : (seen.getLast?.all fun p => p.deal.all fun row => now.deal.any (·.stageId = row.stageId)) = true →
      SameStage seen now := by
    intro hall p row hp hrow
    simp only [hp, Option.all_some, hrow] at hall
    obtain ⟨r, hr, hstage⟩ := (Option.any_eq_true _ _).mp hall
    exact ⟨r, hr, of_decide_eq_true hstage⟩
  cases o with
  | create ctx body =>
    intro given k _ hk
    have hnone : body.stageId = none := Option.isNone_iff_eq_none.mp h
    rw [hnone] at hk
    cases hk
  | update ctx id body =>
    obtain ⟨hs, hgiven⟩ := Bool.and_eq_true_iff.mp h
    refine ⟨hsame hs, fun s k row hstage => ?_⟩
    rw [Option.isNone_iff_eq_none.mp hgiven] at hstage
    cases hstage
  | win ctx id reason =>
    obtain ⟨hs, hopen⟩ := Bool.and_eq_true_iff.mp h
    exact ⟨hsame hs, by simpa using hopen⟩
  | lose ctx id reason => exact hsame h

/-- A deal that is opened and then won. -/
theorem deal_history_is_path_when_won :
    letI := canonicalFormats
    ∃ (W : Watch (Fin 2) SalesDb SalesLock AppError (Nat × SalesAnswer) DealPart) (row : DealRow),
      W.config.db.deals.find? 100 = some row ∧ row.stageId = 22 ∧
      (W.config.db.historyOf 100).length = 1 ∧ (W.config.db.dealPart 100 firstDeal).OnPath row ∧
      W.config.db.events.countP (·.wins firstDeal) =
        Watch.rises DealPart.won (W.past ++ [W.config.db.dealPart 100 firstDeal]) := by
  let := canonicalFormats
  have hid : parsePublicId .deal firstDeal = .ok 100 := by decide +kernel
  obtain ⟨W, V, hW, hV, -, hwon⟩ := Watch.Reached.of_play
    (g := dealGuard 100 firstDeal (SalesDb.wonPipeline.dealPart 100 firstDeal))
    (P := fun i => inStep (sideBySide opened (winning 2) i))
    (A := fun i => (sideBySide opened (winning 2) i).InStep) (fun i seen r => inStep_sound)
    (fun i : Fin 2 => (sideBySide opened (winning 2) i).body) .wonPipeline (Move.through left 5)
    (Move.through right 5) (fun _ => true)
    (fun V => decide ((V.config.db.historyOf 100).length = 1) &&
      (V.config.db.deals.find? 100).any (·.stageId = 22)) (by decide +kernel)
  obtain ⟨hone, hdeal⟩ := Bool.and_eq_true_iff.mp hwon
  obtain ⟨row, hrow, hstage⟩ := (Option.any_eq_true _ _).mp hdeal
  have hon : ∀ i : Fin 2, (sideBySide opened (winning 2) i).On 100 := by
    intro i
    unfold sideBySide
    split_ifs
    · rfl
    · exact hid
  obtain ⟨hpath, hcount⟩ := deal_history_is_path hon rfl rfl rfl rfl (hW.trans hV)
  rcases hpath with ⟨hnone, -⟩ | ⟨r, hr, hpath⟩
  · rw [hrow] at hnone
    cases hnone
  · cases hrow.symm.trans hr
    exact ⟨V, row, hrow, of_decide_eq_true hstage, of_decide_eq_true hone, hpath, hcount⟩

/-- Two requests win the same deal at once: it is announced as won twice, while it became so once, and its
history leaves the first stage twice. -/
theorem deal_won_twice :
    letI := canonicalFormats
    ∃ W : Watch (Fin 3) SalesDb SalesLock AppError (Nat × SalesAnswer) DealPart,
      Watch.Reached (dealGuard 100 firstDeal (SalesDb.wonPipeline.dealPart 100 firstDeal)) (fun _ _ _ => True)
        (fun i => (if i = 0 then opened else winning (i.val + 1)).body) .wonPipeline W ∧
      W.config.db.events.countP (·.wins firstDeal) = 2 ∧
      Watch.rises DealPart.won (W.past ++ [W.config.db.dealPart 100 firstDeal]) = 1 ∧
      ∀ a b, ¬Path a (W.config.db.historyOf 100) b := by
  let := canonicalFormats
  obtain ⟨W, V, hW, hV, -, hcheck⟩ := Watch.Reached.of_play
    (g := dealGuard 100 firstDeal (SalesDb.wonPipeline.dealPart 100 firstDeal)) (P := fun _ _ _ => true)
    (A := fun _ _ _ => True) (fun _ _ _ _ => trivial)
    (fun i : Fin 3 => (if i = 0 then opened else winning (i.val + 1)).body) .wonPipeline
    (Move.through 0 5 ++ [.exec 1, .exec 1]) (Move.through 2 5 ++ Move.through 1 3) (fun _ => true)
    (fun V => decide (V.config.db.events.countP (·.wins firstDeal) = 2 ∧
      Watch.rises DealPart.won (V.past ++ [V.config.db.dealPart 100 firstDeal]) = 1 ∧
      (V.config.db.historyOf 100).map (fun h => (h.fromStageId, h.toStageId)) = [(some 21, 22), (some 21, 22)]))
    (by decide +kernel)
  obtain ⟨hwins, hrises, hhistory⟩ := of_decide_eq_true hcheck
  refine ⟨V, hW.trans hV, hwins, hrises, fun a b hpath => ?_⟩
  obtain ⟨h₁, t, ht, hone, hrest⟩ := List.map_eq_cons_iff.mp hhistory
  obtain ⟨h₂, t', rfl, htwo, -⟩ := List.map_eq_cons_iff.mp hrest
  rw [ht] at hpath
  have hfrom : h₂.fromStageId = some h₁.toStageId := hpath.2.1
  rw [(Prod.mk.inj htwo).1, (Prod.mk.inj hone).2] at hfrom
  cases hfrom

end Noxara.Sales
