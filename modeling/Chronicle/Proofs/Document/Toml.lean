import Chronicle.Proofs.Document.TomlRest

/-!
# What is read from TOML is built of

**All keys in what is read from TOML are texts, and each number in it stands in the text as a numeral**
(`Toml.built_of_read`). Items that are being put together are built so when what they stand for is, and every way
to add to a table keeps this: a table is changed in one place only (`Toml.Entries.Built.change`), and what is put
there was read from the text.
-/

namespace Chronicle.Toml

variable {d : Document} {cs rest text : List Char}

/-! ## Numbers and times -/

/-- A numeral stands in a text and is read as a number. -/
inductive Written (text : List Char) : List Char → Document → Prop
  | intro {cs rest : List Char} {v : Document} (hat : cs ++ rest <:+ text)
      (hread : readNumber (cs ++ rest) = some (v, rest)) : Written text cs v

/-- A number of a document stands in a text as a numeral. -/
abbrev Stands (text : List Char) (v : Document) : Prop := ∃ cs, Written text cs v

theorem building_readNumber (h : cs <:+ text) : Within text (Document.Built (Stands text)) (readNumber cs) := by
  intro v rest hread
  obtain ⟨hv, numeral, rfl⟩ := reading_readNumber (List.suffix_refl cs) v rest hread
  exact ⟨.of_isNumber hv ⟨numeral, .intro h hread⟩, (List.suffix_append numeral rest).trans h⟩

theorem built_timeDocument {P : Document → Prop} (time : List Char) : (timeDocument time).Built P :=
  Document.built_map.mpr ⟨by simp, by simpa using .text _⟩

theorem building_readDateTime {P : Document → Prop} (h : cs <:+ text) :
    Within text (Document.Built P) (readDateTime cs) := by
  unfold readDateTime
  refine (leaves_readDate h).bind fun date rest _ hrest => ?_
  dsimp only
  split
  · rename_i after hafter
    have hbehind : after <:+ text := by
      split at hafter
      · split at hafter
        · cases hafter
          exact tail_suffix hrest
        · cases hafter
      · cases hafter
    split
    · exact (leaves_readTime hbehind).bind fun time rest _ hrest => (leaves_readOffset hrest).bind fun offset rest _ hrest =>
        .some (built_timeDocument _) hrest
    · exact .some (built_timeDocument _) hrest
  · exact .some (built_timeDocument _) hrest

theorem building_readFigure (h : cs <:+ text) : Within text (Document.Built (Stands text)) (readFigure cs) := by
  unfold readFigure
  split
  · exact building_readDateTime h
  · split
    · exact (leaves_readTime h).map (fun _ => rfl) fun _ _ => built_timeDocument _
    · exact building_readNumber h

/-! ## Tables -/

/-- What an item stands for has texts for keys, and numbers with a property. -/
def Item.Built (P : Document → Prop) (item : Item) : Prop := item.document.Built P

/-- What the entries of a table stand for has texts for keys, and numbers with a property. -/
def Entries.Built (P : Document → Prop) (entries : Entries) : Prop := ∀ e ∈ entries, e.2.Built P

section

variable {P : Document → Prop} {entries out : Entries} {key : String} {item : Item} {path : List String}

theorem entryDocuments_eq (entries : Entries) :
    entryDocuments entries = entries.map fun e => (.text e.1, e.2.document) := by
  induction entries with
  | nil => rfl
  | cons e rest ih => rw [List.map_cons, ← ih]; rfl

theorem elementDocuments_eq (elements : List Entries) :
    elementDocuments elements = elements.map fun entries => .map (entryDocuments entries) := by
  induction elements with
  | nil => rfl
  | cons entries rest ih => rw [List.map_cons, ← ih]; rfl

/-- The keys of a table are texts by themselves. -/
theorem built_entryDocuments : (Document.map (entryDocuments entries)).Built P ↔ entries.Built P := by
  rw [Document.built_map, entryDocuments_eq, List.forall_mem_map, List.forall_mem_map]
  exact ⟨fun h => h.2, fun h => ⟨fun e _ => ⟨e.1, rfl⟩, h⟩⟩

@[simp] theorem built_value : (Item.value d).Built P ↔ d.Built P := .rfl

@[simp] theorem built_table {isImplied isDotted : Bool} :
    (Item.table isImplied isDotted entries).Built P ↔ entries.Built P := built_entryDocuments

@[simp] theorem built_tables {elements : List Entries} :
    (Item.tables elements).Built P ↔ ∀ entries ∈ elements, entries.Built P := by
  show (Document.list (elementDocuments elements).reverse).Built P ↔ _
  simp only [Document.built_list, List.mem_reverse, elementDocuments_eq, List.forall_mem_map,
    built_entryDocuments]

namespace Entries

theorem Built.nil : Entries.Built P [] := by simp [Entries.Built]

theorem Built.lookup (h : entries.Built P) (hitem : List.lookup key entries = some item) : item.Built P := by
  obtain ⟨before, after, rfl, _⟩ := List.lookup_eq_some_iff.mp hitem
  exact h (key, item) (by simp)

theorem Built.set (h : entries.Built P) (hitem : item.Built P) : (entries.set key item).Built P := by
  induction entries with
  | nil => exact List.forall_mem_singleton.mpr hitem
  | cons e rest ih =>
    obtain ⟨he, hrest⟩ := List.forall_mem_cons.mp h
    unfold Entries.set
    split
    · exact List.forall_mem_cons.mpr ⟨hitem, hrest⟩
    · exact List.forall_mem_cons.mpr ⟨he, ih hrest⟩

/-- A table stays as it is built when it is changed in one place by what keeps tables so. By induction on the way to
that place. -/
theorem Built.change {dotted isDotted : Bool} {f : Bool → Entries → Option Entries} (h : entries.Built P)
    (hf : ∀ isDotted inner out, inner.Built P → f isDotted inner = some out → out.Built P)
    (hout : Entries.change dotted f path isDotted entries = some out) : out.Built P := by
  induction path generalizing isDotted entries out with
  | nil => exact hf isDotted entries out h hout
  | cons key path ih =>
    unfold Entries.change at hout
    split at hout
    · obtain ⟨inner, hinner, rfl⟩ := Option.map_eq_some_iff.mp hout
      exact h.set (built_table.mpr (ih .nil hinner))
    · cases hout
    · cases hout
    · rename_i last earlier hitem
      obtain ⟨inner, hinner, rfl⟩ := Option.map_eq_some_iff.mp hout
      obtain ⟨hlast, hearlier⟩ := List.forall_mem_cons.mp (built_tables.mp (h.lookup hitem))
      exact h.set (built_tables.mpr (List.forall_mem_cons.mpr ⟨ih hlast hinner, hearlier⟩))
    · rename_i isImplied isDotted' inner hitem
      split at hout
      · cases hout
      · obtain ⟨inner', hinner, rfl⟩ := Option.map_eq_some_iff.mp hout
        exact h.set (built_table.mpr (ih (built_table.mp (h.lookup hitem)) hinner))

theorem Built.addValue (h : entries.Built P) (hd : d.Built P)
    (hout : entries.addValue path key d = some out) : out.Built P := by
  refine h.change (fun isDotted inner out hinner hadded => ?_) hout
  split at hadded
  · cases hadded
  · cases hadded
    exact List.forall_mem_append.mpr ⟨hinner, List.forall_mem_singleton.mpr hd⟩

end Entries

/-! ## Values -/

theorem built_of_inlineTable {pairs : List ((List String × String) × Document)}
    (hpairs : ∀ p ∈ pairs, p.2.Built P) (h : inlineTable pairs = some d) : d.Built P := by
  obtain ⟨entries, hentries, rfl⟩ := Option.map_eq_some_iff.mp h
  apply built_entryDocuments.mpr
  -- so is what was put together so far
  suffices hfold : ∀ start : Entries, Entries.Built P start → pairs.foldlM (fun entries pair =>
      Entries.addValue pair.1.1 pair.1.2 pair.2 entries) start = some entries → Entries.Built P entries from
    hfold [] .nil hentries
  clear hentries h
  induction pairs with
  | nil =>
    intro start hstart hsame
    cases hsame
    exact hstart
  | cons pair rest ih =>
    intro start hstart hrest
    obtain ⟨hpair, hpairs⟩ := List.forall_mem_cons.mp hpairs
    rw [List.foldlM_cons] at hrest
    obtain ⟨next, hnext, hrest⟩ := Option.bind_eq_some_iff.mp hrest
    exact ih hpairs next (hstart.addValue hpair hnext) hrest

/-- What is read with some fuel is built of what stands in the text. -/
structure ReadsBuilt (text : List Char) (fuel : Nat) : Prop where
  value : ∀ room {cs}, cs <:+ text → Within text (Document.Built (Stands text)) (readValue fuel room cs)
  items : ∀ room {cs}, cs <:+ text →
    Within text (fun ds => ∀ d ∈ ds, Document.Built (Stands text) d) (readItems fuel room cs)
  pairs : ∀ room {cs}, cs <:+ text →
    Within text (fun ps => ∀ p ∈ ps, Document.Built (Stands text) p.2) (readPairs fuel room cs)

variable {fuel : Nat}

theorem ReadsBuilt.value_succ (hfuel : ReadsBuilt text fuel) (room : Nat) (h : cs <:+ text) :
    Within text (Document.Built (Stands text)) (readValue (fuel + 1) room cs) := by
  unfold readValue
  split
  case h_1 | h_2 => exact (leaves_readString h).map (fun _ => rfl) fun r _ => .text r.1
  case h_3 =>
    split
    · exact .none
    · exact (hfuel.items _ (tail_suffix h)).bind fun items rest hitems hrest =>
        .some (Document.built_list.mpr hitems) hrest
  case h_4 tail =>
    have hblanks : skipBlanks tail <:+ text := (skipBlanks_suffix _).trans (tail_suffix h)
    dsimp only
    split
    · exact .none
    · split
      · -- nothing stands between the braces
        rename_i heq
        rw [heq] at hblanks
        exact .given fun read hread => by
          cases hread
          exact .given fun table htable => .some (built_of_inlineTable (by simp) htable) (tail_suffix hblanks)
      · exact (hfuel.pairs _ hblanks).bind fun pairs rest hpairs hrest =>
          .given fun table htable => .some (built_of_inlineTable hpairs htable) hrest
  case h_5 => exact .some (.bool _) (tail_suffix (tail_suffix (tail_suffix (tail_suffix h))))
  case h_6 => exact .some (.bool _) (tail_suffix (tail_suffix (tail_suffix (tail_suffix (tail_suffix h)))))
  case h_7 => exact building_readFigure h

theorem ReadsBuilt.items_succ (hfuel : ReadsBuilt text fuel) (room : Nat) (h : cs <:+ text) :
    Within text (fun ds => ∀ d ∈ ds, Document.Built (Stands text) d) (readItems (fuel + 1) room cs) := by
  unfold readItems
  refine (ends_skipLines _ h).bind fun start hstart => ?_
  split
  · exact .some (by simp) (tail_suffix hstart)
  · refine (hfuel.value room hstart).bind fun d rest hd hrest => (ends_skipLines _ hrest).bind fun next hnext => ?_
    split
    · exact .some (List.forall_mem_singleton.mpr hd) (tail_suffix hnext)
    · exact (hfuel.items room (tail_suffix hnext)).bind fun more rest hmore hrest =>
        .some (List.forall_mem_cons.mpr ⟨hd, hmore⟩) hrest
    · exact .none

theorem ReadsBuilt.pairs_succ (hfuel : ReadsBuilt text fuel) (room : Nat) (h : cs <:+ text) :
    Within text (fun ps => ∀ p ∈ ps, Document.Built (Stands text) p.2) (readPairs (fuel + 1) room cs) := by
  unfold readPairs
  refine (leaves_readKey h).bind fun key rest _ hrest => (ends_expect _ hrest).bind fun rest hrest =>
    (hfuel.value room ((skipBlanks_suffix rest).trans hrest)).bind fun d rest hd hrest => ?_
  have hblanks : skipBlanks rest <:+ text := (skipBlanks_suffix rest).trans hrest
  dsimp only
  split
  · rename_i heq
    rw [heq] at hblanks
    exact .some (List.forall_mem_singleton.mpr hd) (tail_suffix hblanks)
  · rename_i heq
    rw [heq] at hblanks
    exact (hfuel.pairs room (tail_suffix hblanks)).bind fun more rest hmore hrest =>
      .some (List.forall_mem_cons.mpr ⟨hd, hmore⟩) hrest
  · exact .none

/-- By induction on the fuel, for values, items and pairs at once. -/
theorem readsBuilt (text : List Char) (fuel : Nat) : ReadsBuilt text fuel := by
  induction fuel with
  | zero => exact ⟨fun _ _ _ => .none, fun _ _ _ => .none, fun _ _ _ => .none⟩
  | succ fuel ih =>
    exact ⟨fun room _ => ih.value_succ room, fun room _ => ih.items_succ room, fun room _ => ih.pairs_succ room⟩

/-! ## Drafts -/

namespace Draft

/-- What was read so far has texts for keys, and numbers with a property. -/
structure Built (P : Document → Prop) (draft : Draft) : Prop where
  root : Entries.Built P draft.root
  entries : Entries.Built P draft.entries

variable {draft next : Draft} {root found : Entries}

theorem Built.close (h : draft.Built P) (hout : draft.close = some out) : Entries.Built P out := by
  unfold Draft.close at hout
  split at hout
  · cases hout
    exact h.entries
  · refine h.root.change (fun isDotted inner out hinner hput => ?_) hout
    split at hput
    · cases hput
      exact hinner.set (built_tables.mpr (List.forall_mem_singleton.mpr h.entries))
    · rename_i elements hitem
      cases hput
      have helements := built_tables.mp (hinner.lookup hitem)
      exact hinner.set (built_tables.mpr (List.forall_mem_cons.mpr ⟨h.entries, helements⟩))
    · cases hput
      exact hinner.set (built_table.mpr h.entries)
    · cases hput
      exact hinner.set (built_table.mpr h.entries)
    · cases hput

theorem built_of_walk (h : Entries.Built P root) (hfound : find.walk path root = some found) :
    Entries.Built P found := by
  induction path generalizing root with
  | nil =>
    cases hfound
    exact h
  | cons key path ih =>
    unfold find.walk at hfound
    split at hfound
    · rename_i hitem
      exact ih (built_table.mp (h.lookup hitem)) hfound
    · rename_i hitem
      exact ih (built_tables.mp (h.lookup hitem) _ List.mem_cons_self) hfound
    · cases hfound

/-- Looking for a place makes tables on the way to it, and what stands there is built alike. -/
theorem built_of_find {item : Option Item} (h : Entries.Built P root)
    (hfind : find path key root = some (out, item)) :
    Entries.Built P out ∧ ∀ i ∈ item, i.Built P := by
  obtain ⟨made, hmade, hout⟩ := Option.map_eq_some_iff.mp hfind
  cases hout
  refine ⟨h.change (fun _ inner out hinner hsame => ?_) hmade, fun i hi => ?_⟩
  · cases hsame
    exact hinner
  · obtain ⟨around, haround, hitem⟩ := Option.bind_eq_some_iff.mp hi
    exact (built_of_walk h haround).lookup hitem

theorem Built.openTable (h : draft.Built P) (hnext : draft.openTable path key = some next) : next.Built P := by
  obtain ⟨closed, hclosed, hnext⟩ := Option.bind_eq_some_iff.mp hnext
  obtain ⟨⟨root, item⟩, hfind, hnext⟩ := Option.bind_eq_some_iff.mp hnext
  obtain ⟨hroot, hitem⟩ := built_of_find (h.close hclosed) hfind
  dsimp only at hnext
  split at hnext
  · cases hnext
    exact ⟨hroot, .nil⟩
  · obtain ⟨without, hwithout, hnext⟩ := Option.bind_eq_some_iff.mp hnext
    cases hnext
    refine ⟨hroot.change (fun _ inner out hinner hput => ?_) hwithout, built_table.mp (hitem _ rfl)⟩
    cases hput
    exact fun e he => hinner e ((List.mem_filter.mp he).1)
  · cases hnext

theorem Built.openElement (h : draft.Built P) (hnext : draft.openElement path key = some next) :
    next.Built P := by
  obtain ⟨closed, hclosed, hnext⟩ := Option.bind_eq_some_iff.mp hnext
  obtain ⟨⟨root, item⟩, hfind, hnext⟩ := Option.bind_eq_some_iff.mp hnext
  obtain ⟨hroot, _⟩ := built_of_find (h.close hclosed) hfind
  dsimp only at hnext
  split at hnext
  · cases hnext
    exact ⟨hroot, .nil⟩
  · cases hnext
    exact ⟨hroot, .nil⟩
  · cases hnext

theorem building_readHeader (isElement : Bool) (h : draft.Built P) (hcs : cs <:+ text) :
    Within text (Built P) (Toml.readHeader isElement draft cs) := by
  unfold Toml.readHeader
  refine (leaves_readKey hcs).bind fun key rest _ hrest => (ends_expect _ hrest).bind fun rest hrest => ?_
  cases isElement with
  | true =>
    exact (ends_expect _ hrest).bind fun rest hrest => (ends_restOfLine hrest).bind fun rest hrest =>
      .given fun opened hopened => .some (h.openElement hopened) hrest
  | false =>
    exact (Ends.some hrest).bind fun rest hrest => (ends_restOfLine hrest).bind fun rest hrest =>
      .given fun opened hopened => .some (h.openTable hopened) hrest

theorem building_readEntry (h : draft.Built (Stands text)) (hcs : cs <:+ text) :
    Within text (Built (Stands text)) (Toml.readEntry draft cs) := by
  unfold Toml.readEntry
  exact (leaves_readKey hcs).bind fun key rest _ hrest => (ends_expect _ hrest).bind fun rest hrest =>
    ((readsBuilt text _).value _ ((skipBlanks_suffix rest).trans hrest)).bind fun value rest hvalue hrest =>
    (ends_restOfLine hrest).bind fun rest hrest =>
    .given fun added hadded => .some ⟨h.root, h.entries.addValue hvalue hadded⟩ hrest

/-- By induction on the fuel, line by line. -/
theorem Built.readLines (h : draft.Built (Stands text)) (hcs : cs <:+ text)
    (hnext : Toml.readLines fuel draft cs = some next) : next.Built (Stands text) := by
  induction fuel generalizing draft cs with
  | zero =>
    cases hnext
    exact h
  | succ fuel ih =>
    have hblanks : skipBlanks cs <:+ text := (skipBlanks_suffix cs).trans hcs
    unfold Toml.readLines at hnext
    split at hnext
    · cases hnext
      exact h
    · rename_i heq
      rw [heq] at hblanks
      split at hnext
      · rename_i hend
        have hcomment := (List.dropWhile_suffix isPrintable).trans (tail_suffix hblanks)
        exact ih h (ends_lineOrTextEnd hcomment _ hend) hnext
      · cases hnext
    · rename_i heq
      rw [heq] at hblanks
      split at hnext
      · rename_i hheader
        obtain ⟨hbuilt, hafter⟩ := building_readHeader true h (tail_suffix (tail_suffix hblanks)) _ _ hheader
        exact ih hbuilt hafter hnext
      · cases hnext
    · rename_i heq
      rw [heq] at hblanks
      split at hnext
      · rename_i hheader
        obtain ⟨hbuilt, hafter⟩ := building_readHeader false h (tail_suffix hblanks) _ _ hheader
        exact ih hbuilt hafter hnext
      · cases hnext
    · split at hnext
      · rename_i hend
        exact ih h (ends_lineEnd hblanks _ hend) hnext
      · split at hnext
        · rename_i hentry
          obtain ⟨hbuilt, hafter⟩ := building_readEntry h hblanks _ _ hentry
          exact ih hbuilt hafter hnext
        · cases hnext

end Draft

/-- **All keys in what is read from TOML are texts, and its numbers stand in the text.** -/
theorem built_of_read {text : String} (h : read text = some d) : d.Built (Stands text.toList) := by
  obtain ⟨draft, hdraft, h⟩ := Option.bind_eq_some_iff.mp h
  obtain ⟨entries, hentries, h⟩ := Option.bind_eq_some_iff.mp h
  cases h
  have hstart : Draft.Built (Stands text.toList) {} := ⟨.nil, .nil⟩
  have hmark : (if text.toList.head? == some '\ufeff' then text.toList.drop 1 else text.toList) <:+ text.toList := by
    split
    · exact List.drop_suffix _ _
    · exact List.suffix_refl _
  exact built_entryDocuments.mpr ((hstart.readLines hmark hdraft).close hentries)

end

end Chronicle.Toml
