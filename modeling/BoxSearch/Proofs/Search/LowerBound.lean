import BoxSearch.Proofs.Contractor.Relaxation
import BoxSearch.Proofs.Search.Buffer
import BoxSearch.Proofs.Search.Cell
import BoxSearch.Proofs.Search.Incumbent
import BoxSearch.Search.Iteration

/-!
# What the lower bound rests on

A search accounts for a point as long as an open cell holds it, a dropped cell with a bound up to
its height may have held it, or the target has come down to its height. Whatever removes a cell
leaves a point of the cell in one of the other two cases.
-/
set_option autoImplicit false

namespace BoxSearch

open OrderedScalar Scalar Checked

/-! ## What is given -/

/-- The states of a contractor, with the least value it was told since its last restart. -/
inductive Contractor.Told {κ α : Type} [Scalar α] [OrderedScalar α] [Contractor κ α] (first : κ) :
    κ → EReal → Prop
  | first : Told first first ⊤
  | contract {k k' : κ} {g : EReal} {b : Box α} {outcome : Narrowing α} {j j' : Journal α} :
      Told first k g → (Contractor.contract k b).run j = .ok ((outcome, k'), j') →
      Told first k' g
  | onIncumbent {k k' : κ} {g : EReal} {v : α} {j j' : Journal α} : Told first k g → IsNumber v →
      (Contractor.onIncumbent k v).run j = .ok (k', j') → Told first k' (Min.min g (value v))
  | restart {k k' : κ} {g : EReal} {j j' : Journal α} : Told first k g →
      (Contractor.restart k).run j = .ok (k', j') → Told first k' ⊤

/-- The contractor cannot handle the box in some state that it gets into. -/
def Contractor.GivesUp {κ α : Type} [Scalar α] [OrderedScalar α] [Contractor κ α] (first : κ)
    (b : Box α) : Prop :=
  ∃ (k k' : κ) (g : EReal) (e : LpError) (j j' : Journal α), Told first k g ∧
    (contract k b).run j = .ok ((.failed e, k'), j')

structure Setting (κ α : Type) [Scalar α] [OrderedScalar α] where
  problem : Problem α
  config : SearchConfig α
  contractor : κ
  valid : ∀ {b : Box α} {image : Interval α}, problem.evalObjective b = .ok image → image.Valid
  monotone : config.Monotone

variable {κ α : Type} [Scalar α] [OrderedScalar α] [Contractor κ α] {s : Setting κ α}

/-- A point with the value of the objective there. It satisfies the constraints, and the
contractor keeps it while it is told no smaller value. -/
structure Point (s : Setting κ α) where
  place : List ℝ
  height : ℝ
  objective : ∀ {b : Box α} {image : Interval α}, place ∈ b →
    s.problem.evalObjective b = .ok image → height ∈ image
  not_refuted : ∀ {b : Box α}, place ∈ b → ¬Evaluable.Refuted s.problem b
  retained : ∀ {k k' : κ} {g : EReal} {b : Box α} {outcome : Narrowing α} {j j' : Journal α},
    Contractor.Told s.contractor k g → (height : EReal) ≤ g →
    (Contractor.contract k b).run j = .ok ((outcome, k'), j') → place ∈ b →
    outcome.Retains place

/-! ## What is kept -/

namespace Optimizer
variable {o o' : Optimizer κ α}

def standing (o : Optimizer κ α) : Option (Box α) × SearchStatus := (o.domain, o.status)

/-- The open cells are ordered by lower bounds of their images, none of which is above the
target, and the contractor was told nothing below the target. -/
structure Sound (s : Setting κ α) (o : Optimizer κ α) : Prop where
  problem : o.problem = s.problem
  config : o.config = s.config
  loup : IsNumber o.loup
  uplo : IsNumber o.uplo
  eps : IsNumber o.uploOfEpsBoxes
  sorted : o.buffer.Sorted
  evaluated : ∀ c ∈ o.buffer.cells, c.Evaluated s.problem
  below : ∀ c ∈ o.buffer.cells, value (CellCost.imageLower c) ≤ value (s.config.target o.loup)
  told : ∃ g, Contractor.Told s.contractor o.contractor g ∧
    value (s.config.target o.loup) ≤ g

/-- The point is not lost, and the lower bound is none above it. -/
structure Accounts (q : Point s) (o : Optimizer κ α) : Prop where
  covered : (∃ c ∈ o.buffer.cells, q.place ∈ c.domain) ∨ value o.uploOfEpsBoxes ≤ q.height ∨
    value (s.config.target o.loup) ≤ q.height
  uplo_le : value o.uplo ≤ q.height

structure Proceeds (s : Setting κ α) (o o' : Optimizer κ α) : Prop where
  sound : o'.Sound s
  standing : o'.standing = o.standing
  accounts : ∀ q : Point s, o.Accounts q → o'.Accounts q

structure Advances (s : Setting κ α) (o o' : Optimizer κ α) : Prop extends Proceeds s o o' where
  uplo_le : value o'.uplo ≤ value o.uplo

theorem Sound.target_eq (sound : o.Sound s) : o.target = s.config.target o.loup := by
  rw [target, sound.config]

theorem Sound.number_target (sound : o.Sound s) : IsNumber (s.config.target o.loup) :=
  s.monotone.number_target sound.loup

theorem Accounts.mono {q : Point s} (accounts : o.Accounts q)
    (cells : ∀ c ∈ o.buffer.cells, q.place ∈ c.domain →
      c ∈ o'.buffer.cells ∨ value (s.config.target o'.loup) ≤ q.height)
    (eps : value o'.uploOfEpsBoxes ≤ value o.uploOfEpsBoxes)
    (target : value (s.config.target o'.loup) ≤ value (s.config.target o.loup))
    (uplo : value o'.uplo ≤ value o.uplo) : o'.Accounts q := by
  refine ⟨?_, uplo.trans accounts.uplo_le⟩
  rcases accounts.covered with ⟨c, hc, inside⟩ | small | cut
  · rcases cells c hc inside with hc | cut
    · exact Or.inl ⟨c, hc, inside⟩
    · exact Or.inr (Or.inr cut)
  · exact Or.inr (Or.inl (eps.trans small))
  · exact Or.inr (Or.inr (target.trans cut))

theorem Proceeds.trans {o₁ o₂ o₃ : Optimizer κ α} (first : Proceeds s o₁ o₂)
    (second : Proceeds s o₂ o₃) : Proceeds s o₁ o₃ :=
  ⟨second.sound, second.standing.trans first.standing,
    fun q h => second.accounts q (first.accounts q h)⟩

theorem Advances.trans {o₁ o₂ o₃ : Optimizer κ α} (first : Advances s o₁ o₂)
    (second : Advances s o₂ o₃) : Advances s o₁ o₃ :=
  ⟨first.toProceeds.trans second.toProceeds, second.uplo_le.trans first.uplo_le⟩

theorem Sound.imageLower_le {c : Cell α} {q : Point s} (sound : o.Sound s)
    (hc : c ∈ o.buffer.cells) (inside : q.place ∈ c.domain) :
    value (CellCost.imageLower c) ≤ q.height := by
  obtain ⟨image, remembered, found⟩ := sound.evaluated c hc
  exact CellCost.imageLower_le remembered (q.objective inside found)

/-! ## Raising the bound -/

omit [OrderedScalar α] [Contractor κ α] in
theorem raiseUplo_eq (o : Optimizer κ α) (bound : α) :
    ∃ u, o.raiseUplo bound = { o with uplo := u } ∧ (u = o.uplo ∨ u = Scalar.min bound o.loup) := by
  rw [raiseUplo]
  split
  · exact ⟨_, rfl, Or.inr rfl⟩
  · exact ⟨_, rfl, Or.inl rfl⟩

omit [OrderedScalar α] [Contractor κ α] in
theorem standing_raiseUplo (o : Optimizer κ α) (bound : α) :
    (o.raiseUplo bound).standing = o.standing := by
  obtain ⟨u, same, -⟩ := raiseUplo_eq o bound
  rw [same]
  rfl

theorem Sound.raiseUplo {bound : α} (sound : o.Sound s) (number : IsNumber bound) :
    (o.raiseUplo bound).Sound s ∧ ∀ {y : EReal}, value o.uplo ≤ y →
      Min.min (value bound) (value o.loup) ≤ y → value (o.raiseUplo bound).uplo ≤ y := by
  obtain ⟨u, same, choice⟩ := raiseUplo_eq o bound
  rw [same]
  rcases choice with rfl | rfl
  · exact ⟨{ sound with uplo := sound.uplo }, fun h _ => h⟩
  · refine ⟨{ sound with uplo := number_min number sound.loup }, fun _ h => ?_⟩
    exact (value_min number sound.loup).trans_le h

theorem Accounts.raiseUplo {q : Point s} {bound : α} (accounts : o.Accounts q)
    (below : value (o.raiseUplo bound).uplo ≤ q.height) : (o.raiseUplo bound).Accounts q := by
  obtain ⟨u, same, -⟩ := raiseUplo_eq o bound
  rw [same] at below ⊢
  exact ⟨accounts.covered, below⟩

theorem Sound.proceeds_raiseUplo {bound : α} (sound : o.Sound s) (number : IsNumber bound)
    (below : ∀ q : Point s, o.Accounts q → Min.min (value bound) (value o.loup) ≤ q.height) :
    Proceeds s o (o.raiseUplo bound) := by
  obtain ⟨sound', bounded⟩ := sound.raiseUplo number
  refine ⟨sound', ?_, fun q accounts => accounts.raiseUplo ?_⟩
  · exact standing_raiseUplo o bound
  · exact bounded accounts.uplo_le (below q accounts)

/-- Without open cells the lower bound is that of the dropped cells or the target. -/
theorem Sound.closeEmpty (sound : o.Sound s) (none : o.buffer.size = 0) :
    Proceeds s o o.closeEmpty.2 := by
  have covered : ∀ q : Point s, o.Accounts q → value o.uploOfEpsBoxes ≤ q.height ∨
      value (s.config.target o.loup) ≤ q.height := by
    intro q accounts
    have no_cells := sound.sorted.cells_of_size none
    simpa [no_cells] using accounts.covered
  rw [Optimizer.closeEmpty]
  split
  · have number := number_min sound.number_target sound.eps
    dsimp only
    rw [sound.target_eq]
    refine sound.proceeds_raiseUplo number fun q accounts => ?_
    rw [value_min sound.number_target sound.eps]
    rcases covered q accounts with small | cut
    · exact ((min_le_left _ _).trans (min_le_right _ _)).trans small
    · exact ((min_le_left _ _).trans (min_le_left _ _)).trans cut
  · rename_i infinite
    refine sound.proceeds_raiseUplo sound.eps fun q accounts => ?_
    rcases covered q accounts with small | cut
    · exact (min_le_left _ _).trans small
    · rw [SearchConfig.target_of_not_finite (Bool.eq_false_iff.mpr infinite)] at cut
      exact (min_le_right _ _).trans cut

theorem Sound.stop? {status : SearchStatus} (sound : o.Sound s)
    (stopped : o.stop? = some (status, o')) : Proceeds s o o' := by
  rw [Optimizer.stop?] at stopped
  split at stopped
  · obtain ⟨-, rfl⟩ := Prod.mk.inj (Option.some.inj stopped)
    exact ⟨sound, rfl, fun q accounts => accounts⟩
  · split at stopped
    · obtain ⟨-, rfl⟩ := Prod.mk.inj (Option.some.inj stopped)
      exact ⟨{ sound with uplo := sound.uplo }, rfl, fun q h => ⟨h.covered, h.uplo_le⟩⟩
    · split at stopped
      · rename_i none
        obtain ⟨-, rfl⟩ := Prod.mk.inj (Option.some.inj stopped)
        exact sound.closeEmpty none
      · cases stopped

/-! ## Dropping and adding cells -/

theorem Sound.recordEpsBox {lower : α} (sound : o.Sound s) (number : IsNumber lower) :
    Advances s o (o.recordEpsBox lower) ∧ ∀ q : Point s, value lower ≤ q.height →
      value o.uplo ≤ q.height → (o.recordEpsBox lower).Accounts q := by
  rw [Optimizer.recordEpsBox]
  dsimp only
  split
  · rename_i lowered
    have below := (lt_iff.mp lowered).2.2.le
    refine ⟨⟨⟨{ sound with eps := number }, rfl, fun q h => ?_⟩, le_rfl⟩, fun q h h' => ?_⟩
    · exact h.mono (fun c hc _ => Or.inl hc) below le_rfl le_rfl
    · exact ⟨Or.inr (Or.inl h), h'⟩
  · rename_i kept
    rw [lt_iff_value number sound.eps, not_lt] at kept
    refine ⟨⟨⟨{ sound with eps := sound.eps }, rfl, fun q h => ?_⟩, le_rfl⟩, fun q h h' => ?_⟩
    · exact h.mono (fun c hc _ => Or.inl hc) le_rfl le_rfl le_rfl
    · exact ⟨Or.inr (Or.inl (kept.trans h)), h'⟩

theorem Sound.push {c : Cell α} {buffer : CellBuffer α} {statistics : Statistics}
    (sound : o.Sound s) (evaluated : c.Evaluated s.problem)
    (below : value (CellCost.imageLower c) ≤ value (s.config.target o.loup))
    (pushed : o.buffer.push c = .ok buffer) :
    Advances s o { o with buffer, statistics } ∧ ∀ q : Point s, q.place ∈ c.domain →
      value o.uplo ≤ q.height → Accounts q { o with buffer, statistics } := by
  obtain ⟨image, remembered, found⟩ := evaluated
  have number := CellCost.number_imageLower remembered (s.valid found)
  obtain ⟨sorted, cells⟩ := sound.sorted.push number pushed
  refine ⟨⟨⟨{ sound with sorted, evaluated := fun d hd => ?_, below := fun d hd => ?_ }, rfl,
    fun q h => ?_⟩, le_rfl⟩, fun q inside h => ?_⟩
  · rcases (cells d).mp hd with rfl | hd
    · exact ⟨image, remembered, found⟩
    · exact sound.evaluated d hd
  · rcases (cells d).mp hd with rfl | hd
    · exact below
    · exact sound.below d hd
  · exact h.mono (fun d hd _ => Or.inl ((cells d).mpr (Or.inr hd))) le_rfl le_rfl le_rfl
  · exact ⟨Or.inl ⟨c, (cells c).mpr (Or.inl rfl), inside⟩, h⟩

def storeCell (o : Optimizer κ α) (lower : α) (c : Cell α) : Checked α (Optimizer κ α) :=
  match o.buffer.push c with
  | .ok buffer =>
    return { o with buffer, statistics := o.statistics.onBufferSize buffer.size }
  | .error (.overflow capacity) =>
    let o := o.recordEpsBox lower
    return { o with pendingLimit := o.pendingLimit.or (some (capacityReached capacity)) }
  | .error .underflow => return o

omit [OrderedScalar α] [Contractor κ α] in
theorem pushCell_eq (o : Optimizer κ α) (c : Cell α) (lower : α) : o.pushCell c lower =
    (if o.buffer.needsFeasibility then
      Prod.snd <$> c.feasibleShare o.problem o.config.equalityTolerance
    else pure c) >>= o.storeCell lower := by
  rw [Optimizer.pushCell]
  split
  · cases c.feasibleShare o.problem o.config.equalityTolerance <;> rfl
  · rfl

omit [OrderedScalar α] [Contractor κ α] in
theorem storeCell_of_pushCell {c : Cell α} {lower : α} (success : o.pushCell c lower = .ok o') :
    ∃ d, (d = c ∨ ∃ answer,
      c.feasibleShare o.problem o.config.equalityTolerance = .ok (answer, d)) ∧
      o.storeCell lower d = .ok o' := by
  rw [pushCell_eq] at success
  obtain ⟨d, chosen, stored⟩ := bind_eq_ok.mp success
  refine ⟨d, ?_, stored⟩
  split at chosen
  · obtain ⟨⟨answer, _⟩, shared, rfl⟩ := map_eq_ok.mp chosen
    exact Or.inr ⟨answer, shared⟩
  · exact Or.inl (Except.ok.inj chosen).symm

/-- A cell that does not fit into the buffer is accounted for as a dropped one. -/
theorem Sound.storeCell {c : Cell α} {lower : α} (sound : o.Sound s) (number : IsNumber lower)
    (evaluated : c.Evaluated s.problem)
    (below : value (CellCost.imageLower c) ≤ value (s.config.target o.loup))
    (success : o.storeCell lower c = .ok o') :
    Advances s o o' ∧ ∀ q : Point s, q.place ∈ c.domain → value lower ≤ q.height →
      value o.uplo ≤ q.height → o'.Accounts q := by
  rw [Optimizer.storeCell] at success
  split at success
  · rename_i buffer pushed
    obtain rfl := Except.ok.inj success
    obtain ⟨advances, accounts⟩ := sound.push evaluated below pushed
    exact ⟨advances, fun q inside _ h => accounts q inside h⟩
  · obtain rfl := Except.ok.inj success
    obtain ⟨advances, accounts⟩ := sound.recordEpsBox number
    have sound' := advances.sound
    refine ⟨⟨⟨{ sound' with eps := sound'.eps }, advances.standing, fun q h => ?_⟩,
      advances.uplo_le⟩, fun q _ small h => ?_⟩
    · exact ⟨(advances.accounts q h).covered, (advances.accounts q h).uplo_le⟩
    · exact ⟨(accounts q small h).covered, (accounts q small h).uplo_le⟩
  · rename_i refused
    obtain ⟨capacity, impossible⟩ := CellBuffer.overflow_of_push refused
    cases impossible

theorem Sound.pushCell {c : Cell α} {lower : α} (sound : o.Sound s) (number : IsNumber lower)
    (evaluated : c.Evaluated s.problem)
    (below : value (CellCost.imageLower c) ≤ value (s.config.target o.loup))
    (success : o.pushCell c lower = .ok o') :
    Advances s o o' ∧ ∀ q : Point s, q.place ∈ c.domain → value lower ≤ q.height →
      value o.uplo ≤ q.height → o'.Accounts q := by
  obtain ⟨d, shared, stored⟩ := storeCell_of_pushCell success
  rcases shared with rfl | ⟨answer, shared⟩
  · exact sound.storeCell number evaluated below stored
  · obtain ⟨domain, remembered⟩ := Cell.same_of_feasibleShare shared
    obtain ⟨image, same, found⟩ := evaluated
    have evaluated' : Cell.Evaluated s.problem d :=
      ⟨image, remembered.trans same, domain ▸ found⟩
    have cost : CellCost.imageLower d = CellCost.imageLower c := by
      rw [CellCost.imageLower_eq (remembered.trans same), CellCost.imageLower_eq same]
    have accounted := sound.storeCell number evaluated' (cost ▸ below) stored
    rwa [domain] at accounted

/-! ## A better incumbent -/

/-- Cells that a better incumbent rules out are above the new target, which is below the old. -/
theorem Sound.improve {v : α} {statistics : Statistics} {point : Option (List α)} {contractor : κ}
    {j j' : Journal α} (sound : o.Sound s) (better : v < o.loup)
    (told : (Contractor.onIncumbent o.contractor (o.config.target v)).run j =
      .ok (contractor, j')) :
    Advances s o { o with
      loup := v
      uplo := Scalar.min o.uplo v
      statistics
      buffer := ((o.buffer.setIncumbent v).evict (o.config.target v)).2
      contractor
      point } := by
  obtain ⟨number, -, below⟩ := lt_iff.mp better
  have target : o.config.target v = s.config.target v := by rw [sound.config]
  rw [target] at told ⊢
  have number_target := s.monotone.number_target number
  have lower := s.monotone.value_target_le number sound.loup below.le
  obtain ⟨sorted, same⟩ := sound.sorted.setIncumbent v
  obtain ⟨sorted', stay, leave⟩ := sorted.evict number_target
  obtain ⟨g, before, least⟩ := sound.told
  have uplo := number_min sound.uplo number
  have uplo_le : value (Scalar.min o.uplo v) ≤ value o.uplo := by
    rw [value_min sound.uplo number]
    exact min_le_left _ _
  refine ⟨⟨?_, rfl, fun q accounts => accounts.mono (fun c hc inside => ?_) le_rfl lower
    uplo_le⟩, uplo_le⟩
  · exact { sound with
      loup := number
      uplo
      sorted := sorted'
      evaluated := fun c hc => sound.evaluated c ((same c).mp (stay c hc).1)
      below := fun c hc => (stay c hc).2
      told := ⟨_, before.onIncumbent number_target told, le_min (lower.trans least) le_rfl⟩ }
  · rcases leave c ((same c).mpr hc) with hc' | cut
    · exact Or.inl hc'
    · exact Or.inr (cut.trans (sound.imageLower_le hc inside))

/-! ## Beginning and resuming -/

theorem Sound.pushRoot {domain : Box α} (sound : o.Sound s) (fresh : value o.loup = ⊤)
    (success : o.pushRoot domain = .ok o') :
    Advances s o o' ∧ ∀ q : Point s, q.place ∈ domain → value o.uplo ≤ q.height →
      o'.Accounts q := by
  have infinite : isFinite o.loup = false := by
    rw [Bool.eq_false_iff, Ne, isFinite_iff]
    exact fun finite => finite.2.1 fresh
  rw [Optimizer.pushRoot] at success
  split at success
  · rename_i empty
    obtain rfl := Except.ok.inj success
    refine ⟨⟨⟨sound, rfl, fun q h => h⟩, le_rfl⟩, fun q inside _ => ?_⟩
    rw [Box.isEmpty_of_mem inside] at empty
    cases empty
  · obtain ⟨⟨image, root⟩, asked, success⟩ := bind_eq_ok.mp success
    rw [sound.problem] at asked
    have current := CachedBox.current_ofDomain s.problem domain
    obtain ⟨found, same, remembered⟩ := Cell.objective_eq_ok current asked
    have below : value (CellCost.imageLower root) ≤ value (s.config.target o.loup) := by
      rw [SearchConfig.target_of_not_finite infinite, fresh]
      exact le_top
    have number : IsNumber image.lo := (s.valid found).number_lo
    obtain ⟨advances, accounts⟩ :=
      sound.pushCell number (Cell.evaluated_of_objective current asked) below success
    refine ⟨advances, fun q inside h => accounts q ?_ ?_ h⟩
    · rw [same]
      exact inside
    · exact (q.objective inside found).lo_le

theorem Sound.floor (sound : o.Sound s) : IsNumber (o.buffer.minimum.getD (-infinity)) ∧
    ∀ c ∈ o.buffer.cells,
      value (o.buffer.minimum.getD (-infinity)) ≤ value (CellCost.imageLower c) := by
  cases least : o.buffer.minimum with
  | none => exact ⟨number_negInfinity, fun c _ => value_negInfinity.trans_le bot_le⟩
  | some m => exact sound.sorted.minimum_le least

/-- The lower bound rises at most to the least cost, read before a cell is taken out. -/
theorem Sound.takeCell {c : Cell α} (sound : o.Sound s)
    (taken : Iteration.takeCell o = .ok (c, o')) :
    o'.Sound s ∧ o'.standing = o.standing ∧ ∀ q : Point s, o.Accounts q →
      value o'.uplo ≤ q.height ∧ (q.place ∈ c.domain ∨ o'.Accounts q) := by
  obtain ⟨⟨c', buffer⟩, popped, taken⟩ := bind_eq_ok.mp taken
  obtain ⟨rfl, rfl⟩ := Prod.mk.inj (Except.ok.inj taken)
  obtain ⟨sorted, cells⟩ := sound.sorted.pop popped
  obtain ⟨number, least⟩ := sound.floor
  have rest : Sound s { o with buffer, statistics := o.statistics.onIteration c'.depth } :=
    { sound with
      sorted
      evaluated := fun d hd => sound.evaluated d ((cells d).mpr (Or.inr hd))
      below := fun d hd => sound.below d ((cells d).mpr (Or.inr hd)) }
  obtain ⟨sound', bounded⟩ := rest.raiseUplo (number_min number sound.eps)
  refine ⟨sound', ?_, fun q accounts => ?_⟩
  · exact standing_raiseUplo _ _
  · have below : Min.min (value (o.buffer.minimum.getD (-infinity)))
        (value o.uploOfEpsBoxes) ≤ q.height := by
      rcases accounts.covered with ⟨d, hd, inside⟩ | small | cut
      · exact (min_le_left _ _).trans ((least d hd).trans (sound.imageLower_le hd inside))
      · exact (min_le_right _ _).trans small
      · have popped_cell := (cells c').mpr (Or.inl rfl)
        exact (min_le_left _ _).trans
          ((least c' popped_cell).trans ((sound.below c' popped_cell).trans cut))
    rw [← value_min number sound.eps] at below
    have uplo := bounded accounts.uplo_le ((min_le_left _ _).trans below)
    refine ⟨uplo, ?_⟩
    rcases accounts.covered with ⟨d, hd, inside⟩ | dropped
    · rcases (cells d).mp hd with rfl | hd
      · exact Or.inl inside
      · exact Or.inr (Accounts.raiseUplo ⟨Or.inl ⟨d, hd, inside⟩, accounts.uplo_le⟩ uplo)
    · exact Or.inr (Accounts.raiseUplo ⟨Or.inr dropped, accounts.uplo_le⟩ uplo)

theorem Sound.reset {contractor : κ} {j j' : Journal α} (sound : o.Sound s)
    (restarted : (Contractor.restart o.contractor).run j = .ok (contractor, j')) :
    (o.reset contractor).Sound s := by
  obtain ⟨_, told, -⟩ := sound.told
  obtain ⟨sorted, none⟩ := sound.sorted.flush
  obtain ⟨sorted, same⟩ := sorted.setIncumbent infinity
  have no_cells : ∀ c, c ∉ (o.reset contractor).buffer.cells := by
    intro c hc
    have old := (same c).mp hc
    rw [none] at old
    cases old
  refine ⟨sound.problem, sound.config, number_infinity, number_negInfinity, number_infinity,
    sorted, fun c hc => absurd hc (no_cells c), fun c hc => absurd hc (no_cells c), ⊤,
    told.restart restarted, le_top⟩

end Optimizer

end BoxSearch
