import Mathlib

namespace MutinyNet
namespace Host
namespace Prune

/-!
# Pruning the blocks table

`prune-mempool-blocks.sh` deletes the rows below a cutoff height in batches, the
lowest first, until a batch is not full.  The backend goes on writing rows above
the cutoff in the meantime.  Which of the rows of one height come first is up to
the database.
-/

variable {R : Type} (height : R -> Int)

/-- `SELECT MAX(height) - $KEEP FROM blocks;`, which is NULL on an empty table. -/
def cutoff (keep : Int) (table : List R) : Option Int :=
  (table.map height).max?.map (· - keep)

/-- `height < $cutoff`; no row compares with NULL. -/
def below (mark : Option Int) (row : R) : Bool :=
  match mark with
  | some mark => decide (height row < mark)
  | none => false

/-- The rows a delete statement without a limit leaves. -/
def deleteBelow (mark : Option Int) (table : List R) : List R :=
  table.filter fun row => !below height mark row

/-- What a delete statement meets: what the backend made of the rows that are not
below the cutoff since the last one, and the order of the rows that are. -/
structure Turn (mark : Option Int) where
  write : List R -> List R
  above : forall rows, (forall row, row ∈ rows -> below height mark row = false) ->
    forall row, row ∈ write rows -> below height mark row = false
  order : List R -> List R
  perm : forall rows, (order rows).Perm rows
  sorted : forall rows, (order rows).Pairwise fun first second => height first ≤ height second

/-- `DELETE FROM blocks WHERE height < $cutoff ORDER BY height LIMIT $BATCH`: the
rows it deletes and the rows it leaves. -/
def deleteBatch {mark : Option Int} (batch : Nat) (turn : Turn height mark) (table : List R) :
    List R × List R :=
  let rows := table.filter (below height mark) ++ turn.write (deleteBelow height mark table)
  let candidates := turn.order (rows.filter (below height mark))
  (candidates.take batch, candidates.drop batch ++ deleteBelow height mark rows)

/-- The table and the variables of the script, with the rows deleted and the
statements run so far. -/
structure State (R : Type) where
  table : List R
  total : Nat := 0
  deleted : List R := []
  statements : Nat := 0
  ended : Bool := false

/-- The loop, cut where there is no further turn. -/
def pruneLoop {mark : Option Int} (batch : Nat) :
    List (Turn height mark) -> State R -> State R
  | [], state => state
  | turn :: turns, state =>
      let n := (deleteBatch height batch turn state.table).1
      let state : State R :=
        { state with
          table := (deleteBatch height batch turn state.table).2
          total := state.total + n.length
          deleted := state.deleted ++ n
          statements := state.statements + 1 }
      if n.length < batch then { state with ended := true } else pruneLoop batch turns state

/-- `prune-mempool-blocks.sh`. -/
def pruneBlocks (keep : Int) (batch : Nat) (table : List R)
    (turns : List (Turn height (cutoff height keep table))) : State R :=
  pruneLoop height batch turns { table }

variable {height} {mark : Option Int} {batch : Nat}

/-! ## One statement -/

section Statement

variable (turn : Turn height mark) (table : List R)

theorem deleteBelow_above : forall row, row ∈ deleteBelow height mark table ->
    below height mark row = false := by
  intro row member
  exact Bool.not_eq_true' _ |>.mp (List.mem_filter.mp member).2

theorem filter_below_of_above {rows : List R}
    (above : forall row, row ∈ rows -> below height mark row = false) :
    rows.filter (below height mark) = [] := by
  apply List.filter_eq_nil_iff.mpr
  intro row member
  rw [above row member]
  exact Bool.false_ne_true

theorem deleteBelow_of_above {rows : List R}
    (above : forall row, row ∈ rows -> below height mark row = false) :
    deleteBelow height mark rows = rows := by
  apply List.filter_eq_self.mpr
  intro row member
  rw [above row member]
  rfl

theorem deleteBelow_of_below {rows : List R}
    (all : forall row, row ∈ rows -> below height mark row = true) :
    deleteBelow height mark rows = [] := by
  apply List.filter_eq_nil_iff.mpr
  intro row member
  rw [all row member]
  exact Bool.false_ne_true

/-- The statement, by the rows in front of it. -/
theorem deleteBatch_eq :
    deleteBatch height batch turn table =
      ((turn.order (table.filter (below height mark))).take batch,
        (turn.order (table.filter (below height mark))).drop batch ++
          turn.write (deleteBelow height mark table)) := by
  have written := turn.above _ (deleteBelow_above table)
  have low : forall row, row ∈ table.filter (below height mark) -> below height mark row = true :=
    fun row member => (List.mem_filter.mp member).2
  have candidates : (table.filter (below height mark) ++
      turn.write (deleteBelow height mark table)).filter (below height mark) =
        table.filter (below height mark) := by
    rw [List.filter_append, filter_below_of_above written, List.append_nil, List.filter_filter]
    simp only [Bool.and_self]
  have others : deleteBelow height mark (table.filter (below height mark) ++
      turn.write (deleteBelow height mark table)) = turn.write (deleteBelow height mark table) := by
    rw [deleteBelow, List.filter_append, ← deleteBelow, ← deleteBelow, deleteBelow_of_below low,
      deleteBelow_of_above written, List.nil_append]
  rw [deleteBatch, candidates, others]

theorem below_of_mem_order {row : R}
    (member : row ∈ turn.order (table.filter (below height mark))) :
    below height mark row = true :=
  (List.mem_filter.mp ((turn.perm _).mem_iff.mp member)).2

/-- The low rows it leaves are what it had no room for. -/
theorem filter_deleteBatch :
    (deleteBatch height batch turn table).2.filter (below height mark) =
      (turn.order (table.filter (below height mark))).drop batch := by
  rw [deleteBatch_eq, List.filter_append,
    filter_below_of_above (turn.above _ (deleteBelow_above table)), List.append_nil]
  apply List.filter_eq_self.mpr
  intro row member
  exact below_of_mem_order turn table (List.mem_of_mem_drop member)

/-- The other rows are as the backend left them. -/
theorem deleteBelow_deleteBatch :
    deleteBelow height mark (deleteBatch height batch turn table).2 =
      turn.write (deleteBelow height mark table) := by
  rw [deleteBatch_eq, deleteBelow, List.filter_append, ← deleteBelow, ← deleteBelow,
    deleteBelow_of_above (turn.above _ (deleteBelow_above table)),
    deleteBelow_of_below fun row member =>
      below_of_mem_order turn table (List.mem_of_mem_drop member),
    List.nil_append]

theorem length_deleteBatch :
    (deleteBatch height batch turn table).1.length =
      min batch (table.filter (below height mark)).length := by
  rw [deleteBatch_eq, List.length_take, (turn.perm _).length_eq]

end Statement

/-! ## The loop -/

/-- The backend's writes, one after another. -/
def written (turns : List (Turn height mark)) (rows : List R) : List R :=
  turns.foldl (fun rows turn => turn.write rows) rows

/-- The low rows are gone after as many statements as there are full batches of
them, and one more. -/
theorem pruneLoop_spec (positive : 0 < batch) (turns : List (Turn height mark)) (state : State R)
    (running : state.ended = false) :
    ((state.table.filter (below height mark)).length / batch < turns.length ->
      (pruneLoop height batch turns state).ended = true ∧
        (pruneLoop height batch turns state).statements =
          state.statements + ((state.table.filter (below height mark)).length / batch + 1) ∧
        (pruneLoop height batch turns state).total =
          state.total + (state.table.filter (below height mark)).length ∧
        (pruneLoop height batch turns state).table =
          written (turns.take ((state.table.filter (below height mark)).length / batch + 1))
            (deleteBelow height mark state.table)) ∧
      (turns.length ≤ (state.table.filter (below height mark)).length / batch ->
        (pruneLoop height batch turns state).ended = false ∧
          (pruneLoop height batch turns state).statements = state.statements + turns.length) := by
  induction turns generalizing state with
  | nil =>
      constructor
      · intro impossible
        cases impossible
      · intro _
        exact ⟨running, rfl⟩
  | cons turn turns inductionHypothesis =>
      have count := @length_deleteBatch R height mark batch turn state.table
      have low := @filter_deleteBatch R height mark batch turn state.table
      have left : ((deleteBatch height batch turn state.table).2.filter
          (below height mark)).length =
            (state.table.filter (below height mark)).length - batch := by
        rw [low, List.length_drop, (turn.perm _).length_eq]
      rw [pruneLoop]
      dsimp only
      split
      · next notFull =>
          have few : (state.table.filter (below height mark)).length < batch := by omega
          have last : (state.table.filter (below height mark)).length / batch = 0 :=
            Nat.div_eq_of_lt few
          have none_left : (turn.order (state.table.filter (below height mark))).drop batch = [] := by
            apply List.drop_eq_nil_of_le
            rw [(turn.perm _).length_eq]
            exact few.le
          constructor
          · intro _
            refine ⟨rfl, ?_, ?_, ?_⟩
            · rw [last]
            · rw [count, min_eq_right few.le]
            · rw [last, List.take_succ_cons, List.take_zero, deleteBatch_eq, none_left,
                List.nil_append]
              rfl
          · intro short
            rw [last] at short
            cases short
      · next full =>
          have many : batch ≤ (state.table.filter (below height mark)).length := by omega
          have later : (state.table.filter (below height mark)).length / batch =
              ((state.table.filter (below height mark)).length - batch) / batch + 1 :=
            Nat.div_eq_sub_div positive many
          have rest := inductionHypothesis
            { state with
              table := (deleteBatch height batch turn state.table).2
              total := state.total + (deleteBatch height batch turn state.table).1.length
              deleted := state.deleted ++ (deleteBatch height batch turn state.table).1
              statements := state.statements + 1 } running
          dsimp only at rest
          rw [left, deleteBelow_deleteBatch] at rest
          rw [later, List.length_cons]
          constructor
          · intro enough
            rcases rest.1 (by omega) with ⟨ended, statements, total, table⟩
            refine ⟨ended, ?_, ?_, ?_⟩
            · rw [statements]
              omega
            · rw [total, count, min_eq_left many]
              omega
            · rw [table, List.take_succ_cons]
              rfl
          · intro short
            rcases rest.2 (by omega) with ⟨ended, statements⟩
            refine ⟨ended, ?_⟩
            rw [statements]
            omega

/-- What was deleted was low, and no low row that is left is lower. -/
structure Ordered (height : R -> Int) (mark : Option Int) (low : List R) (state : State R) :
    Prop where
  deleted : forall row, row ∈ state.deleted -> below height mark row = true
  lowest : forall gone, gone ∈ state.deleted ->
    forall row, row ∈ state.table.filter (below height mark) -> height gone ≤ height row
  all : (state.deleted ++ state.table.filter (below height mark)).Perm low

theorem ordered_pruneLoop {low : List R} (turns : List (Turn height mark)) {state : State R}
    (ordered : Ordered height mark low state) :
    Ordered height mark low (pruneLoop height batch turns state) := by
  induction turns generalizing state with
  | nil => exact ordered
  | cons turn turns inductionHypothesis =>
      have step : Ordered height mark low
          { state with
            table := (deleteBatch height batch turn state.table).2
            total := state.total + (deleteBatch height batch turn state.table).1.length
            deleted := state.deleted ++ (deleteBatch height batch turn state.table).1
            statements := state.statements + 1 } := by
        have sorted := turn.sorted (state.table.filter (below height mark))
        rw [← List.take_append_drop batch (turn.order _), List.pairwise_append] at sorted
        constructor
        · intro row member
          rcases List.mem_append.mp member with earlier | now
          · exact ordered.deleted row earlier
          · rw [deleteBatch_eq] at now
            exact below_of_mem_order turn state.table (List.mem_of_mem_take now)
        · intro gone member row left
          rw [filter_deleteBatch] at left
          rcases List.mem_append.mp member with earlier | now
          · exact ordered.lowest gone earlier row
              ((turn.perm _).mem_iff.mp (List.mem_of_mem_drop left))
          · rw [deleteBatch_eq] at now
            exact sorted.2.2 gone now row left
        · dsimp only
          rw [filter_deleteBatch, deleteBatch_eq, List.append_assoc, List.take_append_drop]
          exact ((turn.perm _).append_left _).trans ordered.all
      rw [pruneLoop]
      dsimp only
      split
      · exact ⟨step.deleted, step.lowest, step.all⟩
      · exact inductionHypothesis step

theorem ordered_start (table : List R) :
    Ordered height mark (table.filter (below height mark)) { table } := by
  constructor
  · intro row impossible
    cases impossible
  · intro gone impossible
    cases impossible
  · exact List.Perm.refl _

/-- A row that is below the cutoff is lower than one that is not. -/
theorem height_lt_of_below {low high : R} (isLow : below height mark low = true)
    (isHigh : below height mark high = false) : height low < height high := by
  cases mark with
  | none => cases isLow
  | some mark =>
      have lower := of_decide_eq_true isLow
      have higher := of_decide_eq_false isHigh
      omega

/-- Wherever the script is cut, no row is left that is lower than a deleted one. -/
theorem Ordered.le {low : List R} {state : State R} (ordered : Ordered height mark low state) :
    forall gone, gone ∈ state.deleted -> forall row, row ∈ state.table ->
      height gone ≤ height row := by
  intro gone member row left
  cases isLow : below height mark row with
  | true => exact ordered.lowest gone member row (List.mem_filter.mpr ⟨left, isLow⟩)
  | false => exact (height_lt_of_below (ordered.deleted gone member) isLow).le

theorem written_above {turns : List (Turn height mark)} {rows : List R}
    (above : forall row, row ∈ rows -> below height mark row = false) :
    forall row, row ∈ written turns rows -> below height mark row = false := by
  induction turns generalizing rows with
  | nil => exact above
  | cons turn turns inductionHypothesis => exact inductionHypothesis (turn.above rows above)

/-- The batches delete what one statement without a limit deletes, whatever the
backend writes above the cutoff in the meantime. -/
theorem pruneBlocks_eq_deleteBelow (height : R -> Int) (keep : Int) {batch : Nat}
    (positive : 0 < batch) (table : List R)
    (turns : List (Turn height (cutoff height keep table))) :
    ((table.filter (below height (cutoff height keep table))).length / batch < turns.length ->
      (pruneBlocks height keep batch table turns).ended = true ∧
        (pruneBlocks height keep batch table turns).statements =
          (table.filter (below height (cutoff height keep table))).length / batch + 1 ∧
        (pruneBlocks height keep batch table turns).total =
          (table.filter (below height (cutoff height keep table))).length ∧
        (pruneBlocks height keep batch table turns).deleted.Perm
          (table.filter (below height (cutoff height keep table))) ∧
        (pruneBlocks height keep batch table turns).table =
          written (turns.take
            ((table.filter (below height (cutoff height keep table))).length / batch + 1))
            (deleteBelow height (cutoff height keep table) table) ∧
        (table = [] -> deleteBelow height (cutoff height keep table) table = table)) ∧
      (turns.length ≤ (table.filter (below height (cutoff height keep table))).length / batch ->
        (pruneBlocks height keep batch table turns).ended = false ∧
          (pruneBlocks height keep batch table turns).statements = turns.length) ∧
      forall gone, gone ∈ (pruneBlocks height keep batch table turns).deleted ->
        forall row, row ∈ (pruneBlocks height keep batch table turns).table ->
          height gone ≤ height row := by
  have run := pruneLoop_spec positive turns { table } rfl
  have ordered := @ordered_pruneLoop R height _ batch _ turns _ (ordered_start table)
  dsimp only at run
  rw [Nat.zero_add, Nat.zero_add, Nat.zero_add] at run
  refine ⟨?_, run.2, ordered.le⟩
  intro enough
  rcases run.1 enough with ⟨ended, statements, total, left⟩
  refine ⟨ended, statements, total, ?_, left, ?_⟩
  · have none_low : (pruneBlocks height keep batch table turns).table.filter
        (below height (cutoff height keep table)) = [] := by
      apply filter_below_of_above
      rw [pruneBlocks, left]
      exact written_above (deleteBelow_above table)
    have all := ordered.all
    rw [← pruneBlocks, none_low, List.append_nil] at all
    exact all
  · intro empty
    rw [empty]
    rfl

/-- A database that sorts, and a backend that writes nothing. -/
def quietTurn (height : R -> Int) (mark : Option Int) : Turn height mark where
  write := id
  above := fun _ above => above
  order := List.insertionSort fun first second => height first ≤ height second
  perm := List.perm_insertionSort _
  sorted := by
    have total : Std.Total fun first second : R => height first ≤ height second :=
      ⟨fun first second => le_total (height first) (height second)⟩
    have trans : IsTrans R fun first second => height first ≤ height second :=
      ⟨fun _ _ _ => le_trans⟩
    exact List.pairwise_insertionSort _

/-- Two rows at the cutoff's height, and a batch that is filled twice. -/
theorem pruneBlocks_eq_deleteBelow_sample :
    (pruneBlocks (id : Int -> Int) 3 2 [7, 2, 4, 1, 2, 3, 4] (List.replicate 3 (quietTurn _ _))).total
        = 4 ∧
      forall gone, gone ∈
          (pruneBlocks (id : Int -> Int) 3 2 [7, 2, 4, 1, 2, 3, 4] [quietTurn _ _]).deleted ->
        forall row, row ∈
            (pruneBlocks (id : Int -> Int) 3 2 [7, 2, 4, 1, 2, 3, 4] [quietTurn _ _]).table ->
          gone ≤ row :=
  ⟨((pruneBlocks_eq_deleteBelow (id : Int -> Int) 3 Nat.two_pos [7, 2, 4, 1, 2, 3, 4]
      (List.replicate 3 (quietTurn _ _))).1 (by decide)).2.2.1,
    (pruneBlocks_eq_deleteBelow (id : Int -> Int) 3 Nat.two_pos [7, 2, 4, 1, 2, 3, 4]
      [quietTurn _ _]).2.2⟩

/-! ## How many rows are kept -/

/-- As many rows as asked for, or all if there are fewer, and every other row was
below each of them. -/
structure KeepsNewest (height : R -> Int) (keep : Nat) (table kept : List R) : Prop where
  count : kept.length = min keep table.length
  newest : Exists fun gone => (kept ++ gone).Perm table ∧
    forall row, row ∈ kept -> forall other, other ∈ gone -> height other < height row

/-- The heights from the cutoff to the newest block. -/
def window (height : R -> Int) (keep : Nat) (table : List R) : List Int :=
  match (table.map height).max? with
  | some newest => (List.range (keep + 1)).map fun back : Nat => newest - back
  | none => []

/-- Those of them at which the table has no row. -/
def gaps (height : R -> Int) (keep : Nat) (table : List R) : List Int :=
  (window height keep table).filter (· ∉ table.map height)

/-- One of the heights is missing, and if more are then no row is below them. -/
def Fits (height : R -> Int) (keep : Nat) (table : List R) : Prop :=
  table ≠ [] -> gaps height keep table ≠ [] ∧
    (1 < (gaps height keep table).length ->
      forall row, row ∈ table -> below height (cutoff height keep table) row = false)

theorem deleteBelow_append_perm (table : List R) :
    (deleteBelow height mark table ++ table.filter (below height mark)).Perm table := by
  refine List.perm_append_comm.trans ?_
  exact List.filter_append_perm (below height mark) table

/-- The rows at and above a cutoff are the newest ones, as many as there are. -/
theorem keepsNewest_iff {keep : Nat} {table : List R} :
    KeepsNewest height keep table (deleteBelow height mark table) <->
      (deleteBelow height mark table).length = min keep table.length := by
  constructor
  · exact fun keeps => keeps.count
  · intro count
    refine ⟨count, table.filter (below height mark), deleteBelow_append_perm table, ?_⟩
    intro row kept other gone
    exact height_lt_of_below (List.mem_filter.mp gone).2 (deleteBelow_above table row kept)

/-- Where there is one row a height, the rows at and above the cutoff are as many
as the heights that are not missing. -/
theorem length_deleteBelow (keep : Nat) {table : List R} (distinct : (table.map height).Nodup)
    (nonempty : table ≠ []) :
    (deleteBelow height (cutoff height keep table) table).length +
      (gaps height keep table).length = keep + 1 := by
  cases top : (table.map height).max? with
  | none =>
      rw [List.max?_eq_none_iff, List.map_eq_nil_iff] at top
      exact absurd top nonempty
  | some newest =>
      have highest : forall row, row ∈ table -> height row ≤ newest :=
        fun row member => (List.max?_eq_some_iff.mp top).2 _ (List.mem_map_of_mem member)
      have mark : cutoff height keep table = some (newest - keep) := by
        rw [cutoff, top]
        rfl
      have windowed : window height keep table =
          (List.range (keep + 1)).map fun back : Nat => newest - back := by
        rw [window, top]
      have windowNodup : (window height keep table).Nodup := by
        rw [windowed]
        refine (List.nodup_range).map ?_
        intro first second same
        dsimp only at same
        omega
      have same : ((deleteBelow height (cutoff height keep table) table).map height).Perm
          ((window height keep table).filter (· ∈ table.map height)) := by
        rw [List.perm_ext_iff_of_nodup]
        · intro level
          rw [List.mem_filter, decide_eq_true_iff, windowed, List.mem_map, List.mem_map]
          constructor
          · rintro ⟨row, kept, here⟩
            have present := (List.mem_filter.mp kept).1
            have above := deleteBelow_above table row kept
            rw [mark] at above
            have atLeast := of_decide_eq_false above
            have atMost := highest row present
            refine ⟨⟨(newest - level).toNat, ?_, ?_⟩, List.mem_map.mpr ⟨row, present, here⟩⟩
            · rw [List.mem_range]
              omega
            · omega
          · rintro ⟨⟨back, inside, here⟩, present⟩
            rcases List.mem_map.mp present with ⟨row, member, level_⟩
            rw [List.mem_range] at inside
            refine ⟨row, List.mem_filter.mpr ⟨member, ?_⟩, level_⟩
            rw [mark, below, Bool.not_eq_true']
            exact decide_eq_false (by omega)
        · exact (List.filter_sublist.map height).nodup distinct
        · exact windowNodup.filter _
      have present := same.length_eq
      rw [List.length_map] at present
      have split_window := @List.length_eq_length_filter_add _ (window height keep table)
        fun level => decide (level ∈ table.map height)
      have size : (window height keep table).length = keep + 1 := by
        rw [windowed, List.length_map, List.length_range]
      have complement : (window height keep table).filter
          (fun level => !decide (level ∈ table.map height)) = gaps height keep table := by
        rw [gaps]
        apply List.filter_congr
        intro level _
        simp only [decide_not]
      rw [complement] at split_window
      omega

/-- The run of a script that ended while the backend wrote nothing. -/
theorem table_of_ended {keep : Int} {table : List R} (positive : 0 < batch)
    {turns : List (Turn height (cutoff height keep table))}
    (quiet : forall turn, turn ∈ turns -> turn.write = id)
    (ended : (pruneBlocks height keep batch table turns).ended = true) :
    (pruneBlocks height keep batch table turns).table =
      deleteBelow height (cutoff height keep table) table := by
  have run := pruneLoop_spec positive turns { table } rfl
  rcases Nat.lt_or_ge ((table.filter (below height (cutoff height keep table))).length / batch)
    turns.length with enough | short
  · have nothing : forall (turns : List (Turn height (cutoff height keep table))) (rows : List R),
        (forall turn, turn ∈ turns -> turn.write = id) -> written turns rows = rows := by
      intro turns
      induction turns with
      | nil => exact fun rows _ => rfl
      | cons turn turns inductionHypothesis =>
          intro rows quiet
          have here : written (turn :: turns) rows = written turns (turn.write rows) := rfl
          rw [here, quiet turn List.mem_cons_self]
          exact inductionHypothesis rows fun other member =>
            quiet other (List.mem_cons_of_mem turn member)
    rw [pruneBlocks, (run.1 enough).2.2.2]
    exact nothing _ _ fun turn member => quiet turn (List.mem_of_mem_take member)
  · have running := (run.2 short).1
    rw [pruneBlocks, running] at ended
    cases ended

/-- A run keeps the newest rows, as many as it is told, if and only if one of the
heights from the cutoff on is missing, and no older row is deleted where more are. -/
theorem keepsNewest_iff_fits (height : R -> Int) (keep : Nat) {batch : Nat}
    (positive : 0 < batch) {table : List R} (distinct : (table.map height).Nodup)
    {turns : List (Turn height (cutoff height keep table))}
    (quiet : forall turn, turn ∈ turns -> turn.write = id)
    (ended : (pruneBlocks height keep batch table turns).ended = true) :
    (pruneBlocks height keep batch table turns).table.length ≤ keep ∧
        KeepsNewest height keep table (pruneBlocks height keep batch table turns).table <->
      Fits height keep table := by
  rw [table_of_ended positive quiet ended]
  have whole := (@deleteBelow_append_perm R height (cutoff height keep table) table).length_eq
  rw [List.length_append] at whole
  have low_iff : (table.filter (below height (cutoff height keep table))).length = 0 <->
      forall row, row ∈ table -> below height (cutoff height keep table) row = false := by
    rw [List.length_eq_zero_iff, List.filter_eq_nil_iff]
    simp only [Bool.not_eq_true]
  rw [keepsNewest_iff, Fits, ← low_iff, ← List.length_pos_iff, ← List.length_pos_iff]
  by_cases empty : table = []
  · rw [empty]
    simp [deleteBelow]
  · have kept := length_deleteBelow keep distinct empty
    have some_row : 0 < table.length := List.length_pos_of_ne_nil empty
    omega

/-- The block at the cutoff's height stays. -/
theorem keepsNewest_gap_sample :
    (pruneBlocks (id : Int -> Int) 2 5 [1, 3, 4] [quietTurn _ _]).table.length ≤ 2 ∧
        KeepsNewest (id : Int -> Int) 2 [1, 3, 4]
          (pruneBlocks (id : Int -> Int) 2 5 [1, 3, 4] [quietTurn _ _]).table <->
      Fits (id : Int -> Int) 2 [1, 3, 4] := by
  refine keepsNewest_iff_fits _ 2 (by decide) (by decide) ?_ (by decide)
  intro turn member
  rw [List.mem_singleton.mp member]
  rfl

/-- Of a chain of blocks one more is kept than asked for. -/
theorem keepsNewest_chain :
    Not (forall (keep batch : Nat) (table : List Int)
      (turns : List (Turn id (cutoff id keep table))), 1 ≤ keep -> 0 < batch ->
        (table.map id).Nodup -> (forall turn, turn ∈ turns -> turn.write = id) ->
        (pruneBlocks id keep batch table turns).ended = true ->
        (pruneBlocks id keep batch table turns).table.length ≤ keep ∧
          KeepsNewest id keep table (pruneBlocks id keep batch table turns).table) := by
  intro claimed
  have kept := claimed 2 5 [1, 2, 3, 4] [quietTurn _ _] (by decide) (by decide) (by decide)
    (by
      intro turn member
      rw [List.mem_singleton.mp member]
      rfl)
    (by decide)
  exact absurd kept.1 (by decide)

end Prune
end Host
end MutinyNet
