import Mathlib.Data.List.Induction
import Noxara.TableRows

/-! Regions, cells and the routing of tenants. An organisation has a home region; its data is served by the
primary cell of the region, or by a standby in the same region where the residency policy allows one. -/
namespace Noxara.Tenancy

inductive RegionCode
  | us | eu | ap
  deriving DecidableEq

def RegionCode.asStr : RegionCode → String
  | us => "us"
  | eu => "eu"
  | ap => "ap"

/-- What may leave the home cell. -/
inductive ReplicaKind
  | routingMetadata | identity | disasterRecovery
  deriving DecidableEq

structure RegionPolicy where
  region : RegionCode
  allowedReplicas : List ReplicaKind

def CATALOGUE : List RegionPolicy := [
  ⟨.us, [.routingMetadata, .identity, .disasterRecovery]⟩,
  ⟨.eu, [.routingMetadata, .identity]⟩,
  ⟨.ap, [.routingMetadata, .identity]⟩]

def policyFor (region : RegionCode) : Option RegionPolicy := CATALOGUE.find? (·.region = region)

def allowsReplica (region : RegionCode) (kind : ReplicaKind) : Bool :=
  (policyFor region).any (·.allowedReplicas.contains kind)

inductive CellId
  | usPrimary | usDr | euPrimary | apPrimary
  deriving DecidableEq

namespace CellId

def ALL : List CellId := [usPrimary, usDr, euPrimary, apPrimary]

def asStr : CellId → String
  | usPrimary => "us-primary"
  | usDr => "us-dr"
  | euPrimary => "eu-primary"
  | apPrimary => "ap-primary"

def region : CellId → RegionCode
  | usPrimary | usDr => .us
  | euPrimary => .eu
  | apPrimary => .ap

def isStandby (cell : CellId) : Bool := cell = usDr

def primaryFor : RegionCode → CellId
  | .us => usPrimary
  | .eu => euPrimary
  | .ap => apPrimary

/-- The standby in the region, where the catalogue permits disaster recovery. -/
def standbyFor (region : RegionCode) : Option CellId :=
  if region = .us ∧ allowsReplica region .disasterRecovery then some usDr else none

@[simp] theorem region_primaryFor (region : RegionCode) : (primaryFor region).region = region := by
  cases region <;> rfl

theorem isStandby_primaryFor (region : RegionCode) : (primaryFor region).isStandby = false := by
  cases region <;> rfl

theorem region_standbyFor {region : RegionCode} {cell : CellId} (h : standbyFor region = some cell) :
    cell.region = region := by
  unfold standbyFor at h
  split_ifs at h with hus
  cases h
  exact hus.1.symm

end CellId

inductive CellHealth
  | healthy | unhealthy | unknown
  deriving DecidableEq

def CellHealth.isServing (health : CellHealth) : Bool := health = healthy

inductive RegionError
  | regionImmutable
  | regionMismatch (home cell : String)
  | failoverDenied
  | cellUnavailable (cell : String)
  | orgNotInDirectory
  deriving DecidableEq

def enforceCellServesTenant (tenantHome cellRegion : RegionCode) : Except RegionError Unit :=
  if tenantHome = cellRegion then .ok () else .error (.regionMismatch tenantHome.asStr cellRegion.asStr)

/-- The home region of an organisation cannot change after its creation. -/
def enforceRegionImmutable (existing : RegionCode) (requested : Option RegionCode) : Except RegionError Unit :=
  match requested with
  | some r => if r = existing then .ok () else .error .regionImmutable
  | none => .ok ()

theorem enforceRegionImmutable_ok {existing region : RegionCode} :
    enforceRegionImmutable existing (some region) = .ok () ↔ region = existing := by
  simp [enforceRegionImmutable]

structure RoutingDecision where
  orgId : String
  homeRegion : RegionCode
  servingCell : CellId
  failover : Bool
  reason : String
  deriving DecidableEq

/-- The directory of organisations by their public ids, and the health of the cells. -/
structure ControlPlane where
  orgRegions : Table String RegionCode
  cellHealths : Table CellId CellHealth

namespace ControlPlane

def new : ControlPlane := ⟨.empty, CellId.ALL.foldl (fun t cell => t.upsert cell .healthy) .empty⟩

def registerOrg (self : ControlPlane) (orgPublicId : String) (region : RegionCode) : ControlPlane :=
  { self with orgRegions := self.orgRegions.upsert orgPublicId region }

def orgRegion (self : ControlPlane) (orgPublicId : String) : Option RegionCode :=
  self.orgRegions.find? orgPublicId

def setCellHealth (self : ControlPlane) (cell : CellId) (health : CellHealth) : ControlPlane :=
  { self with cellHealths := self.cellHealths.upsert cell health }

def cellHealth (self : ControlPlane) (cell : CellId) : CellHealth :=
  (self.cellHealths.find? cell).getD .unknown

/-- The cell that serves the data of the organisation. -/
def resolveServingCell (self : ControlPlane) (orgPublicId : String) : Except RegionError RoutingDecision :=
  match self.orgRegion orgPublicId with
  | none => .error .orgNotInDirectory
  | some home =>
    let primary := CellId.primaryFor home
    if (self.cellHealth primary).isServing then .ok ⟨orgPublicId, home, primary, false, "primary healthy"⟩
    else if ¬allowsReplica home .disasterRecovery then .error .failoverDenied
    else
      match CellId.standbyFor home with
      | none => .error .failoverDenied
      | some standby =>
        if (self.cellHealth standby).isServing then
          .ok ⟨orgPublicId, home, standby, true,
            s!"primary {primary.asStr} unhealthy; cut over to in-region standby {standby.asStr}"⟩
        else .error (.cellUnavailable primary.asStr)

/-- A cell may serve the organisation only if it is the cell that was resolved. -/
def enforceDataPlaneAccess (self : ControlPlane) (orgPublicId : String) (thisCell : CellId) :
    Except RegionError RoutingDecision := do
  let decision ← self.resolveServingCell orgPublicId
  if decision.servingCell ≠ thisCell ∧ decision.servingCell.region ≠ thisCell.region then
    .error (.regionMismatch decision.homeRegion.asStr thisCell.region.asStr)
  else if decision.servingCell ≠ thisCell then
    -- In the region, but another cell: a cut over sticks.
    .error (.regionMismatch decision.servingCell.asStr thisCell.asStr)
  else do
    enforceCellServesTenant decision.homeRegion thisCell.region
    return decision

@[simp] theorem orgRegion_registerOrg_self (self : ControlPlane) (id : String) (region : RegionCode) :
    (self.registerOrg id region).orgRegion id = some region := Table.find?_upsert_self _ _ _

theorem orgRegion_registerOrg_ne (self : ControlPlane) {id other : String} (region : RegionCode) (h : other ≠ id) :
    (self.registerOrg id region).orgRegion other = self.orgRegion other := Table.find?_upsert_ne _ _ h

@[simp] theorem orgRegion_setCellHealth (self : ControlPlane) (cell : CellId) (health : CellHealth) (id : String) :
    (self.setCellHealth cell health).orgRegion id = self.orgRegion id := rfl

/-- The cell is let to the data of the organisation. -/
def Admits (self : ControlPlane) (id : String) (cell : CellId) : Prop :=
  ∃ decision, self.enforceDataPlaneAccess id cell = .ok decision

/-- What is resolved: the primary cell of the home region, or a permitted standby of it while the primary does
not serve. -/
inductive Serves (self : ControlPlane) (id : String) (home : RegionCode) : CellId → Prop
  | primary (serving : (self.cellHealth (.primaryFor home)).isServing = true) : Serves self id home (.primaryFor home)
  | standby {cell : CellId} (down : (self.cellHealth (.primaryFor home)).isServing = false)
      (allowed : allowsReplica home .disasterRecovery = true) (found : CellId.standbyFor home = some cell)
      (serving : (self.cellHealth cell).isServing = true) : Serves self id home cell

theorem serves_of_resolve {self : ControlPlane} {id : String} {decision : RoutingDecision}
    (h : self.resolveServingCell id = .ok decision) :
    self.orgRegion id = some decision.homeRegion ∧ Serves self id decision.homeRegion decision.servingCell := by
  unfold resolveServingCell at h
  cases hhome : self.orgRegion id with
  | none =>
    rw [hhome] at h
    cases h
  | some home =>
    simp only [hhome] at h
    split_ifs at h with hprimary hallowed
    · cases h
      exact ⟨rfl, .primary hprimary⟩
    · cases hfound : CellId.standbyFor home with
      | none =>
        rw [hfound] at h
        cases h
      | some standby =>
        simp only [hfound] at h
        split_ifs at h with hserving
        cases h
        have hallowed' : allowsReplica home .disasterRecovery = true := by simpa using hallowed
        exact ⟨rfl, .standby (by simpa using hprimary) hallowed' hfound hserving⟩

theorem resolved_of_admits {self : ControlPlane} {id : String} {cell : CellId} (h : self.Admits id cell) :
    ∃ decision, self.resolveServingCell id = .ok decision ∧ decision.servingCell = cell := by
  obtain ⟨decision, h⟩ := h
  unfold enforceDataPlaneAccess at h
  cases hresolve : self.resolveServingCell id with
  | error e =>
    rw [hresolve] at h
    cases h
  | ok d =>
    rw [hresolve] at h
    refine ⟨d, rfl, ?_⟩
    by_contra hne
    change (if d.servingCell ≠ cell ∧ d.servingCell.region ≠ cell.region then _
      else if d.servingCell ≠ cell then _ else _) = _ at h
    split_ifs at h

/-- The data of the organisation is served by one cell at most, in the home region, and by a standby only while
the primary is down and the policy allows it. -/
structure Confined (plane : ControlPlane) (id : String) (home : Option RegionCode) : Prop where
  one : ∀ c d, plane.Admits id c → plane.Admits id d → c = d
  atHome : ∀ c, plane.Admits id c → home = some c.region
  standby : ∀ c, plane.Admits id c → c.isStandby = true →
    (plane.cellHealth (.primaryFor c.region)).isServing = false ∧ allowsReplica c.region .disasterRecovery = true

theorem confined_orgRegion (self : ControlPlane) (id : String) : self.Confined id (self.orgRegion id) where
  one c d hc hd := by
    obtain ⟨x, hx, rfl⟩ := resolved_of_admits hc
    obtain ⟨y, hy, rfl⟩ := resolved_of_admits hd
    rw [Except.ok.inj (hx.symm.trans hy)]
  atHome c hc := by
    obtain ⟨x, hx, rfl⟩ := resolved_of_admits hc
    obtain ⟨hhome, hserves⟩ := serves_of_resolve hx
    rw [hhome]
    generalize x.servingCell = cell at hserves
    cases hserves with
    | primary => rw [CellId.region_primaryFor]
    | standby _ _ hfound _ => rw [CellId.region_standbyFor hfound]
  standby c hc hstandby := by
    obtain ⟨x, hx, rfl⟩ := resolved_of_admits hc
    obtain ⟨-, hserves⟩ := serves_of_resolve hx
    generalize x.servingCell = cell at hserves hstandby
    cases hserves with
    | primary =>
      rw [CellId.isStandby_primaryFor] at hstandby
      cases hstandby
    | standby hdown hallowed hfound _ =>
      rw [CellId.region_standbyFor hfound]
      exact ⟨hdown, hallowed⟩

end ControlPlane

inductive ControlOp
  | registerOrg (orgPublicId : String) (region : RegionCode)
  | setCellHealth (cell : CellId) (health : CellHealth)

namespace ControlPlane

def step (self : ControlPlane) : ControlOp → ControlPlane
  | .registerOrg id region => self.registerOrg id region
  | .setCellHealth cell health => self.setCellHealth cell health

def run (start : ControlPlane) (ops : List ControlOp) : ControlPlane := ops.foldl step start

def firstRegion (ops : List ControlOp) (id : String) : Option RegionCode :=
  ops.findSome? fun
    | .registerOrg other region => if other = id then some region else none
    | .setCellHealth _ _ => none

/-- The condition on a call: a registration again leaves the region as it is. -/
def KeepsRegion (self : ControlPlane) : ControlOp → Prop
  | .registerOrg id region => ∀ existing, self.orgRegion id = some existing →
      enforceRegionImmutable existing (some region) = .ok ()
  | .setCellHealth _ _ => True

theorem orgRegion_run {start : ControlPlane} (hstart : start.orgRegions = .empty) {ops : List ControlOp}
    (hops : ∀ before op after, ops = before ++ op :: after → (start.run before).KeepsRegion op) (id : String) :
    (start.run ops).orgRegion id = firstRegion ops id := by
  induction ops using List.reverseRecOn with
  | nil =>
    change start.orgRegions.find? id = none
    rw [hstart]
    rfl
  | append_singleton ops op ih =>
    have hprior := ih fun before x after hx => hops before x (after ++ [op]) (by rw [hx]; simp)
    have hkeeps := hops ops op [] rfl
    have hrun : start.run (ops ++ [op]) = (start.run ops).step op := by simp [run]
    rw [hrun, firstRegion, List.findSome?_append]
    change _ = (firstRegion ops id).or _
    rw [← hprior]
    cases op with
    | setCellHealth cell health => simp [step]
    | registerOrg other region =>
      by_cases hid : other = id
      · subst hid
        cases hold : (start.run ops).orgRegion other with
        | none => simp [step]
        | some existing =>
          have hsame := enforceRegionImmutable_ok.mp (hkeeps existing hold)
          simp [step, hsame]
      · simp [step, hid, orgRegion_registerOrg_ne _ _ (Ne.symm hid)]

/-- In every run in which a registration again leaves the region of the organisation as it is, access to its
data is confined to the region of its first registration. -/
theorem access_confined_to_first_region {start : ControlPlane} (hstart : start.orgRegions = .empty)
    {ops : List ControlOp}
    (hops : ∀ before op after, ops = before ++ op :: after → (start.run before).KeepsRegion op) (id : String) :
    (start.run ops).Confined id (firstRegion ops id) := by
  rw [← orgRegion_run hstart hops id]
  exact confined_orgRegion _ _

/-- An organisation of the United States that is registered twice there, beside one of Europe, and whose primary cell
is down. -/
def cutOver : List ControlOp :=
  [.registerOrg "org_a" .us, .registerOrg "org_b" .eu, .registerOrg "org_a" .us, .setCellHealth .usPrimary .unhealthy]

/-- It is served by the standby and by no cell of Europe. -/
theorem access_confined_after_cut_over_again :
    (new.run cutOver).Admits "org_a" .usDr ∧ (new.run cutOver).Confined "org_a" (some .us) := by
  have hkeeps : ∀ before op after, cutOver = before ++ op :: after → (new.run before).KeepsRegion op := by
    intro before op after h
    rcases before with _ | ⟨a, _ | ⟨b, _ | ⟨c, _ | ⟨d, rest⟩⟩⟩⟩
    · cases h
      intro existing hexisting
      cases hexisting
    · cases h
      intro existing hexisting
      cases hexisting
    · cases h
      intro existing hexisting
      cases hexisting
      rfl
    · cases h
      trivial
    · simp [cutOver] at h
  exact ⟨⟨_, rfl⟩, access_confined_to_first_region rfl hkeeps "org_a"⟩

/-- An organisation that is registered again in another region is served there. -/
theorem access_leaves_first_region :
    ∃ ops : List ControlOp, firstRegion ops "org_a" = some .eu ∧ (new.run ops).Admits "org_a" .usPrimary ∧
      ¬(new.run ops).Confined "org_a" (firstRegion ops "org_a") := by
  have hadmits : (new.run [.registerOrg "org_a" .eu, .registerOrg "org_a" .us]).Admits "org_a" .usPrimary :=
    ⟨_, rfl⟩
  refine ⟨_, rfl, hadmits, fun h => ?_⟩
  cases h.atHome _ hadmits

end ControlPlane

end Noxara.Tenancy
