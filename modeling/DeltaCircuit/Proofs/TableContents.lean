import DeltaCircuit.Proofs.Plan.ConstantRow
import DeltaCircuit.Proofs.Views
import DeltaCircuit.Proofs.ZSetTally

/-!
# What tables hold

A compiled program says of every table which rows it holds at the start, as a literal. The literal
is the sum of all insertions and deletions in the order of the commands, by expression; its contents
count every row as often as it has been inserted, less the number of times it has been deleted,
whatever the order was and in whatever ways the row was written.

* `Command.insertedInto`, `Command.deletedFrom` — the rows of a command.
* `Compiler.tally` — changes of a table, added up one after another.
* `Compiler.Records`, `Compiler.Records.run` — what the compiler knows of a table is the tally of
  the changes so far, and stays so with every command.
* `Compiler.contents_of_tally` — the contents of a tally.
* `Program.contents_count` — what the tables of a compiled program hold.
-/

namespace DeltaCircuit

open Weighted (sumOver mass share)

/-! ### The rows of commands -/

namespace Command

/-- The rows that a command inserts into a table. -/
def insertedInto (table : String) : Command → List ConstantRow
  | .insert name rows => if name = table then rows else []
  | _ => []

/-- The rows that a command deletes from a table. -/
def deletedFrom (table : String) : Command → List ConstantRow
  | .delete name rows => if name = table then rows else []
  | _ => []

/-- What a command does to a table: rows with signs. -/
def changes (table : String) (command : Command) : List (ConstantRow × Int) :=
  (command.insertedInto table).map (·, 1) ++ (command.deletedFrom table).map (·, -1)

end Command

namespace Program

/-- All rows that are inserted into a table. -/
def inserted (commands : List Command) (table : String) : List ConstantRow :=
  commands.flatMap (·.insertedInto table)

/-- All rows that are deleted from a table. -/
def deleted (commands : List Command) (table : String) : List ConstantRow :=
  commands.flatMap (·.deletedFrom table)

/-- All changes of a table, in order. -/
def changes (commands : List Command) (table : String) : List (ConstantRow × Int) :=
  commands.flatMap (·.changes table)

variable {commands done : List Command} {command : Command} {table : String}

theorem changes_concat :
    changes (done ++ [command]) table = changes done table ++ command.changes table := by
  simp [changes]

/-- Changes count for what the insertions and the deletions count for, in whatever order they
are. -/
theorem sumOver_changes (count : ConstantRow → Int → Int) :
    sumOver count (changes commands table) =
      sumOver count ((inserted commands table).map (·, 1)) +
        sumOver count ((deleted commands table).map (·, -1)) := by
  induction commands with
  | nil => rfl
  | cons command commands ih =>
    simp only [changes, inserted, deleted, List.flatMap_cons, Command.changes, List.map_append,
      Weighted.sumOver_append] at ih ⊢
    rw [ih]
    ring

theorem mem_changes {change : ConstantRow × Int} (h : change ∈ changes commands table) :
    change.1 ∈ inserted commands table ++ deleted commands table := by
  obtain ⟨command, hcommand, hchange⟩ := List.mem_flatMap.mp h
  rcases List.mem_append.mp hchange with hinserted | hdeleted
  · obtain ⟨row, hrow, rfl⟩ := List.mem_map.mp hinserted
    exact List.mem_append_left _ (List.mem_flatMap.mpr ⟨command, hcommand, hrow⟩)
  · obtain ⟨row, hrow, rfl⟩ := List.mem_map.mp hdeleted
    exact List.mem_append_right _ (List.mem_flatMap.mpr ⟨command, hcommand, hrow⟩)

end Program

namespace Compiler

variable {c c' : Compiler} {command : Command} {commands done : List Command} {table name : String}
  {schema : Schema} {rows : List ConstantRow} {row : ConstantRow} {w : Int}
  {y z literal : ZSetLiteral} {changes : List (ConstantRow × Int)}

/-! ### Tallies -/

/-- Changes of a table of a schema, added up one after another. -/
def tally (schema : Schema) (literal : ZSetLiteral) (changes : List (ConstantRow × Int)) :
    Except CompileError ZSetLiteral :=
  changes.foldlM (fun literal change => do
    let element ← constantRow schema change.1
    ofTerm (literal.addElement element change.2)) literal

theorem tally_append {more : List (ConstantRow × Int)} (h : tally schema y changes = .ok z) :
    tally schema y (changes ++ more) = tally schema z more := by
  -- the tally goes on where that of the first changes has come to
  unfold tally at h ⊢
  rw [List.foldlM_append, h, Except.ok_bind]

/-- The rows of one command are added to the contents of a table that is known. -/
theorem contentsWith_eq_ok (h : c.contentsWith table rows w = .ok literal) :
    ∃ found, Assoc.get? c.lowering.tables table = some found ∧
      tally found.schema ((Assoc.get? c.contents table).getD (.empty found.schema.rowType))
        (rows.map (·, w)) = .ok literal := by
  unfold contentsWith at h
  split at h
  · cases h
  · next source schema hfound =>
    refine ⟨_, hfound, ?_⟩
    unfold tally
    rw [List.foldlM_map]
    exact h

/-- A change and the element that it adds. -/
def Adds (schema : Schema) (change : ConstantRow × Int) (element : Expr × Int) : Prop :=
  constantRow schema change.1 = .ok element.1 ∧ element.2 = change.2

theorem exists_mergeAll_of_tally (h : tally schema y changes = .ok z) :
    ∃ elements, List.Forall₂ (Adds schema) changes elements ∧ y.mergeAll elements = .ok z := by
  induction changes generalizing y with
  | nil =>
    obtain rfl := Except.ok.inj h
    exact ⟨[], .nil, rfl⟩
  -- each change becomes an element first, and the element is added then
  | cons change changes ih =>
    obtain ⟨next, hnext, hrest⟩ := Except.bind_eq_ok.mp ((List.foldlM_cons ..).symm.trans h)
    obtain ⟨element, helement, hadd⟩ := Except.bind_eq_ok.mp hnext
    obtain ⟨-, hmerge⟩ := ZSetLiteral.addElement_eq_ok.mp (ofTerm_eq_ok.mp hadd)
    obtain ⟨elements, hall, helements⟩ := ih hrest
    exact ⟨(element, change.2) :: elements, .cons ⟨helement, rfl⟩ hall,
      ZSetLiteral.mergeAll_cons_eq_ok.mpr ⟨next, hmerge, helements⟩⟩

/-! ### The contents of a tally -/

/-- The value of a row of constants in a table of a schema. -/
def rowValue? (schema : Schema) (row : ConstantRow) : Option Value :=
  (constantRow schema row).toOption.bind fun e => e.evaluate.toOption

/-- Whether a row of constants has a value. -/
def rowIs (schema : Schema) (v : Value) (row : ConstantRow) : Bool :=
  (rowValue? schema row).any (·.same v)

theorem evaluate_of_rowValue? {e : Expr} {v : Value} (h : constantRow schema row = .ok e)
    (hv : rowValue? schema row = some v) : e.evaluate = .ok v := by
  unfold rowValue? at hv
  rw [h] at hv
  exact Except.toOption_eq_some.mp hv

/-- Changes without floating point literals, all of whose rows have a value. -/
structure Evaluable (schema : Schema) (changes : List (ConstantRow × Int)) : Prop where
  -- the row has been translated, so it has a value if the translation has one
  exact : ∀ change ∈ changes, ScalarExpr.hasFloatAll change.1 = false
  value : ∀ change ∈ changes, (rowValue? schema change.1).isSome

/-- A row of constants with a value and without floating point literals, as an expression. -/
def IsElement (schema : Schema) (e : Expr) : Prop :=
  ∃ row v, ScalarExpr.hasFloatAll row = false ∧ constantRow schema row = .ok e ∧ e.evaluate = .ok v

theorem IsElement.same_of_equal {a b : Expr} (ha : IsElement schema a)
    (hequal : a.equal b = true) : a.value.same b.value = true := by
  obtain ⟨row, u, hexact, hrow, hu⟩ := ha
  obtain ⟨u', hu', hsame⟩ := same_of_equal_rows hexact hrow hequal hu
  rw [Expr.value_eq hu, Expr.value_eq hu']
  exact hsame

theorem Evaluable.isElement {elements : List (Expr × Int)} (h : Evaluable schema changes)
    (hall : List.Forall₂ (Adds schema) changes elements) :
    ∀ element ∈ elements, IsElement schema element.1 := by
  intro element helement
  -- every element stands for a change, whose row has the value
  obtain ⟨change, hchange, hadds, -⟩ := hall.exists_of_mem_right helement
  obtain ⟨v, hv⟩ := Option.isSome_iff_exists.mp (h.value change hchange)
  exact ⟨change.1, v, h.exact change hchange, hadds, evaluate_of_rowValue? hadds hv⟩

/-- What the elements of changes give to a value is what the changes give to it. -/
theorem share_of_adds {elements : List (Expr × Int)}
    (hvalues : ∀ change ∈ changes, (rowValue? schema change.1).isSome)
    (hall : List.Forall₂ (Adds schema) changes elements) (v : Value) :
    share Expr.value v elements =
      sumOver (fun row w => if rowIs schema v row then w else 0) changes := by
  induction hall with
  | nil => rfl
  | @cons change element changes elements hadds _ ih =>
    obtain ⟨hfirst, hrest⟩ := List.forall_mem_cons.mp hvalues
    obtain ⟨u, hu⟩ := Option.isSome_iff_exists.mp hfirst
    -- the change passes the test iff the value of its element is the one that is asked for
    obtain ⟨helement, hweight⟩ := hadds
    have hvalue : element.1.value = u := Expr.value_eq (evaluate_of_rowValue? helement hu)
    rw [Weighted.share_cons, Weighted.sumOver_cons, ih hrest, hvalue, hweight, rowIs, hu,
      Option.any_some]

theorem mass_of_adds {elements : List (Expr × Int)}
    (hall : List.Forall₂ (Adds schema) changes elements) : mass elements = mass changes := by
  induction hall with
  | nil => rfl
  | cons hadds _ ih => rw [Weighted.mass_cons, Weighted.mass_cons, ih, hadds.2]

/-- **The contents of a tally.** Every value has the weights of all changes whose row has the value,
together. -/
theorem contents_of_tally (h : tally schema (.empty schema.rowType) changes = .ok literal)
    (hchanges : Evaluable schema changes) (hmass : mass changes < 2 ^ 63) :
    ∃ z, literal.contents = .ok z ∧ Weighted.Normal Value.same z ∧
      ∀ v, ZSet.weight z v =
        sumOver (fun row w => if rowIs schema v row then w else 0) changes := by
  obtain ⟨elements, hall, hmerge⟩ := exists_mergeAll_of_tally h
  have helements := hchanges.isElement hall
  have hempty : ∀ entry ∈ (ZSetLiteral.empty schema.rowType).entries, IsElement schema entry.1 :=
    -- the literal starts empty, so that all its elements are rows of changes
    nofun
  have hentries := ZSetLiteral.forall_of_mergeAll hempty helements hmerge
  have hbound : mass literal.entries < 2 ^ 63 := by
    -- no weight of the literal gets larger than all changes together
    have hle := ZSetLiteral.mass_of_mergeAll hmerge
    rw [mass_of_adds hall, ZSetLiteral.empty, Weighted.mass_nil, Int.zero_add] at hle
    exact lt_of_le_of_lt hle hmass
  have hvalues : ∀ entry ∈ literal.entries, ∃ v, entry.1.evaluate = .ok v := by
    intro entry hentry
    obtain ⟨_, v, -, -, hv⟩ := hentries entry hentry
    exact ⟨v, hv⟩
  obtain ⟨z, hz, hnormal, hweight⟩ := ZSetLiteral.exists_contents hvalues hbound
  -- what the literal gives to a value is what the elements gave it, and they stand for the changes
  refine ⟨z, hz, hnormal, fun v => ?_⟩
  have hshare := ZSetLiteral.share_of_mergeAll (fun _ _ ha _ => ha.same_of_equal) hempty helements
    hmerge v
  rw [hweight v, hshare, ZSetLiteral.empty, Weighted.share_nil, Int.zero_add,
    share_of_adds hchanges.value hall]

/-! ### What the compiler knows of a table -/

/-- The schema of a table that is known. -/
def schemaOf? (c : Compiler) (table : String) : Option Schema :=
  (Assoc.get? c.lowering.tables table).map Table.schema

/-- **Records.** The contents of a table that is known are the tally of all its changes; a table
that is not known has neither contents nor changes. -/
structure Records (table : String) (done : List Command) (c : Compiler) : Prop where
  created : ∀ schema, c.schemaOf? table = some schema → .createTable table schema ∈ done
  unknown : c.schemaOf? table = none →
    Assoc.get? c.contents table = none ∧ Program.changes done table = []
  tallied : ∀ schema, c.schemaOf? table = some schema →
    tally schema (.empty schema.rowType) (Program.changes done table) =
      .ok ((Assoc.get? c.contents table).getD (.empty schema.rowType))

theorem Records.start (options : Options) : Records table [] (start options) where
  created := nofun
  unknown _ := ⟨rfl, rfl⟩
  tallied := nofun

/-- A command that has nothing to do with a table. -/
theorem Records.skip (h : Records table done c) (hchanges : command.changes table = [])
    (hschema : c'.schemaOf? table = c.schemaOf? table)
    (hcontents : Assoc.get? c'.contents table = Assoc.get? c.contents table) :
    Records table (done ++ [command]) c' where
  created schema hknown := List.mem_append_left _ (h.created schema (hschema ▸ hknown))
  unknown hnone := by
    rw [Program.changes_concat, hchanges, List.append_nil, hcontents]
    exact h.unknown (hschema ▸ hnone)
  tallied schema hknown := by
    rw [Program.changes_concat, hchanges, List.append_nil, hcontents]
    exact h.tallied schema (hschema ▸ hknown)

theorem contents_runLowering {action : Lower Unit} (h : c.runLowering action = (.ok (), c')) :
    c'.contents = c.contents := by
  rw [runLowering_eq] at h
  rw [← (Prod.mk.inj h).2]

/-- A table that has been created is known, and was not known before. -/
theorem schemaOf?_createTable (hrun : c.run (.createTable name schema) = (.ok (), c')) :
    c.schemaOf? name = none ∧
      ∀ table, c'.schemaOf? table = if name = table then some schema else c.schemaOf? table := by
  obtain ⟨hnew, source, t, happend, hlowering⟩ := gives_createTable (gives_of_runLowering hrun)
  obtain ⟨-, op, -, -, -, rfl⟩ := Lower.gives_append happend
  refine ⟨by rw [schemaOf?, hnew, Option.map_none], fun table => ?_⟩
  rw [schemaOf?, hlowering, Assoc.get?_set]
  split
  · rfl
  · rfl

/-- A view leaves the tables as they are. -/
theorem tables_createView {query : String} {comment : Option String} {plan : Plan}
    (htracks : Tracks id c c)
    (hrun : c.runLowering (createView name query comment plan) = (.ok (), c')) :
    c'.lowering.tables = c.lowering.tables := by
  obtain ⟨output, t, sink, hplan, hsink⟩ := gives_createView (gives_of_runLowering hrun)
  obtain ⟨-, op, -, -, -, hlowering⟩ := Lower.gives_append hsink
  -- whatever a plan does to a lowering, it creates no table
  have hgrows := (plan.lockstep_lower _ _ htracks.lowering).grows.tables
  unfold ExceptT.Gives at hplan
  rw [hplan] at hgrows
  rw [hlowering]
  exact hgrows

/-- Further rows of a table. -/
theorem Records.addRows (h : Records table done c)
    (hrun : c.addRows name rows w = (.ok (), c'))
    (hchanges : command.changes table = if name = table then rows.map (·, w) else []) :
    Records table (done ++ [command]) c' := by
  unfold Compiler.addRows at hrun
  split at hrun
  · next contents hadded =>
    obtain ⟨-, rfl⟩ := Prod.mk.inj hrun
    by_cases hname : name = table
    · -- the command is about this table: its rows continue the tally
      subst hname
      rw [if_pos rfl] at hchanges
      obtain ⟨found, hfound, htally⟩ := contentsWith_eq_ok hadded
      have hschema : c.schemaOf? name = some found.schema := by rw [schemaOf?, hfound]; rfl
      refine ⟨fun schema hknown => List.mem_append_left _ (h.created schema hknown),
        fun hnone => ?_, fun schema hknown => ?_⟩
      · cases hschema.symm.trans hnone
      · obtain rfl : found.schema = schema := Option.some.inj (hschema.symm.trans hknown)
        rw [Program.changes_concat, hchanges, tally_append (h.tallied _ hschema), htally,
          Assoc.get?_set_self, Option.getD_some]
    · -- the command is about another table
      exact h.skip (by rw [hchanges, if_neg hname]) rfl (Assoc.get?_set_of_ne _ _ hname)
  · cases (Prod.mk.inj hrun).1

/-- **One more command** keeps the records of a table, if it succeeds. -/
theorem Records.run (htracks : Tracks id c c) (h : Records table done c)
    (hrun : c.run command = (.ok (), c')) : Records table (done ++ [command]) c' := by
  cases command with
  | createTable name schema =>
    obtain ⟨hnew, hschema⟩ := schemaOf?_createTable hrun
    have hcontents : c'.contents = c.contents := contents_runLowering hrun
    by_cases hname : name = table
    · subst hname
      -- nothing has been done to a table before it is known
      obtain ⟨hempty, hnothing⟩ := h.unknown hnew
      have hknown : c'.schemaOf? name = some schema := by rw [hschema, if_pos rfl]
      refine ⟨fun found hfound => ?_, fun hnone => ?_, fun found hfound => ?_⟩
      · obtain rfl := Option.some.inj (hknown.symm.trans hfound)
        exact List.mem_append_right _ List.mem_cons_self
      · cases hknown.symm.trans hnone
      · rw [Program.changes_concat, hnothing, hcontents, hempty]
        rfl
    · -- another table is created
      exact h.skip rfl (by rw [hschema, if_neg hname]) (by rw [hcontents])
  | createView name query comment plan =>
    by_cases htaken : name ∈ c.views
    · -- the name of the view is taken, and the command fails
      cases (run_of_taken rfl htaken).symm.trans hrun
    · rw [run_createView htaken] at hrun
      have htables := tables_createView (c := { c with views := c.views ++ [name] })
        ⟨rfl, htracks.lowering, List.Subset.refl _, rfl⟩ hrun
      -- neither what is known of the table nor its contents are touched
      exact h.skip rfl (by rw [schemaOf?, schemaOf?, htables])
        (by rw [contents_runLowering hrun])
  | insert name rows =>
    refine h.addRows (show c.addRows name rows 1 = _ from hrun) ?_
    -- the changes of an insertion are its rows with a plus
    simp only [Command.changes, Command.insertedInto, Command.deletedFrom]
    split <;> simp
  | delete name rows =>
    refine h.addRows (show c.addRows name rows (-1) = _ from hrun) ?_
    -- those of a deletion are its rows with a minus
    simp only [Command.changes, Command.insertedInto, Command.deletedFrom]
    split <;> simp

/-- A compiler still tracks itself after a command that succeeds. -/
theorem Tracks.next (htracks : Tracks id c c) (hrun : c.run command = (.ok (), c')) :
    Tracks id c' c' := by
  rcases (htracks.run command fun _ _ => id).outcome with
    ⟨_, _, _, -, hdirty, h⟩ | ⟨_, _, _, _, _, -, hdirty, -⟩
  · obtain ⟨-, rfl⟩ := Prod.mk.inj (hdirty.symm.trans hrun)
    exact h.self
  · cases (Prod.mk.inj (hdirty.symm.trans hrun)).1

/-- **A run of commands** keeps the records of a table. -/
theorem Records.runAll (htracks : Tracks id c c) (h : Records table done c)
    (hrun : c.runAll commands = .ok c') : Records table (done ++ commands) c' := by
  induction commands generalizing c done with
  | nil =>
    obtain rfl := Except.ok.inj hrun
    rwa [List.append_nil]
  | cons command commands ih =>
    unfold Compiler.runAll at hrun
    split at hrun
    · next next hnext =>
      rw [List.append_cons]
      exact ih (htracks.next hnext) (h.run htracks hnext) hrun
    · cases hrun

end Compiler

/-! ### Compiled programs -/

/-- **What tables hold.** If a program has been compiled, with fewer than `2 ^ 63` insertions into
and deletions from a table, none of which has a floating point literal and all of which have a
value, then the contents of the table give every value the number of its insertions less the number
of its deletions. -/
theorem Program.contents_count {options : Options} {commands : List Command}
    {compiled : Compilation} {table : String} {literal : ZSetLiteral}
    (hcompile : Program.compile options commands = .ok compiled)
    (hcontents : Assoc.get? compiled.contents table = some literal)
    (hcount : (inserted commands table).length + (deleted commands table).length < 2 ^ 63)
    (hfloat : ∀ row ∈ inserted commands table ++ deleted commands table,
      ScalarExpr.hasFloatAll row = false)
    (hvalues : ∀ schema, .createTable table schema ∈ commands →
      ∀ row ∈ inserted commands table ++ deleted commands table,
        (Compiler.rowValue? schema row).isSome) :
    ∃ schema z, .createTable table schema ∈ commands ∧ literal.contents = .ok z ∧
      Weighted.Normal Value.same z ∧
      ∀ v, ZSet.weight z v = ((inserted commands table).countP (Compiler.rowIs schema v) : Int) -
        (deleted commands table).countP (Compiler.rowIs schema v) := by
  obtain ⟨c, hrun, hfinish⟩ := Except.bind_eq_ok.mp hcompile
  have hrecords : Compiler.Records table commands c :=
    .runAll (Compiler.tracks_start options) (.start options) hrun
  have hsame : compiled.contents = c.contents := by
    unfold Compiler.finish at hfinish
    split at hfinish
    · rw [← Except.ok.inj hfinish]
    · cases hfinish
  rw [hsame] at hcontents
  cases hknown : c.schemaOf? table with
  -- contents without a table that is known are impossible
  | none => cases hcontents.symm.trans (hrecords.unknown hknown).1
  | some schema =>
    have hcreated := hrecords.created schema hknown
    have htally := hrecords.tallied schema hknown
    rw [hcontents, Option.getD_some] at htally
    -- the mass of the changes is their number, as each of them has the weight one or minus one
    have hmass : mass (changes commands table) < 2 ^ 63 := by
      unfold mass
      rw [sumOver_changes]
      show mass _ + mass _ < _
      rw [Weighted.mass_map, Weighted.mass_map, Int.natAbs_neg, Int.natAbs_one]
      omega
    obtain ⟨z, hz, hnormal, hweight⟩ := Compiler.contents_of_tally htally
      ⟨fun change hchange => hfloat _ (mem_changes hchange),
        fun change hchange => hvalues schema hcreated _ (mem_changes hchange)⟩ hmass
    refine ⟨schema, z, hcreated, hz, hnormal, fun v => ?_⟩
    rw [hweight v, sumOver_changes, Weighted.sumOver_countP, Weighted.sumOver_countP]
    ring

/-! #### A row in three ways -/

/-- An item as a constant. -/
def item (number : Int) : ScalarExpr := .literal (some (.int number)) .i32

/-- The first item comes in as a number and as a text, and goes out as a sum. -/
def recount : List Command :=
  [.createTable "STOCK" items,
    .insert "STOCK" [[item 1], [.cast (.literal (some (.string "1")) .string) .i32]],
    .delete "STOCK" [[.call .plus [item 0, item 1] .i32]],
    .insert "STOCK" [[item 2]]]

/-- The literal keeps all four expressions apart, and the contents count two items. -/
theorem contents_count_recount :
    ∃ compiled literal z, Program.compile .default recount = .ok compiled ∧
      Assoc.get? compiled.contents "STOCK" = some literal ∧ literal.size = 4 ∧
      literal.contents = .ok z ∧ ZSet.weight z (.row [.int 1]) = 1 ∧
      ZSet.weight z (.row [.int 2]) = 1 := by
  have hsize : ((Program.compile .default recount).toOption.bind fun compiled =>
      (Assoc.get? compiled.contents "STOCK").map ZSetLiteral.size) = some 4 := by decide +kernel
  obtain ⟨compiled, hcompile, hsize⟩ := Option.bind_eq_some_iff.mp hsize
  obtain ⟨literal, hcontents, hsize⟩ := Option.map_eq_some_iff.mp hsize
  rw [Except.toOption_eq_some] at hcompile
  have hcreated {schema : Schema} (h : .createTable "STOCK" schema ∈ recount) : schema = items := by
    simpa [recount] using h
  obtain ⟨schema, z, hmem, hz, -, hweight⟩ :=
    Program.contents_count hcompile hcontents (by decide) (by decide) fun schema hmem => by
      obtain rfl := hcreated hmem
      decide +kernel
  obtain rfl := hcreated hmem
  -- the four expressions of three commands are of two values
  refine ⟨compiled, literal, z, hcompile, hcontents, hsize, hz, ?_, ?_⟩
  · rw [hweight]
    decide +kernel
  · rw [hweight]
    decide +kernel

end DeltaCircuit
