import AndroidResources.Proofs.Symbol.Contribution
import AndroidResources.Proofs.Symbol.Shapes
import AndroidResources.Proofs.Xml.Acceptance

/-!
# Values files that hold documents

What a list of resource files declares, where the values files among them hold well-formed
documents.

* `Xml.closed_of_readFrom_piece` : a processing instruction with `>` in it is refused;
* `Xml.Document.readable_of_read` : so a document that is read without a fault is readable, if the
  marks in its document type declaration are balanced;
* `HoldsDocuments`, `valuesChildren` : the documents in values files, the children of their roots;
* `filter_flatten_fileSymbols` : what is declared in values files only, in order of the children;
* `get?_styleable_collectSymbols` : styleables come from values files only;
* `collectSymbols_values` : the table of values files.
-/

namespace AndroidResources

/-! ## Documents that are refused -/

namespace Xml

theorem markup_instruction_fault {s : Text} (h : ¬ "?>".toList <:+: s) (hmark : '>' ∈ s)
    (rest : Text) :
    markup ('?' :: (s ++ rest)) = .fault (.unexpectedEnd .declaration) := by
  obtain ⟨t, u, rfl, ht⟩ := List.eq_append_cons_of_mem hmark
  have hclose : upToClose (t ++ '>' :: u ++ rest) = (t, u ++ rest) := by
    rw [List.append_assoc, List.cons_append, upToClose_append ht]
  have hlast : t.getLast? ≠ some '?' := by
    intro hlast
    obtain ⟨t', rfl⟩ := List.getLast?_eq_some_iff.1 hlast
    exact h ⟨t', u, by simp⟩
  rw [markup_question, hclose, if_neg fun hend => hlast hend.2]

mutual

/-- The first processing instruction with `>` in it is a fault, so there is none in a piece that is
read without one. -/
theorem closed_of_readFrom_piece : ∀ (piece : Piece) {openNames : List Text} {rest : Text},
    (readFrom openNames (piece.render ++ rest)).fault? = none → piece.Closed
  | .text _ _, _, _, _ => trivial
  | .comment _ _, _, _, _ => trivial
  | .cdata _ _, _, _, _ => trivial
  | .instruction s hne h, openNames, rest, hread => by
    rw [Piece.Closed]
    intro hmark
    rw [Piece.render, instructionText, List.cons_append, List.cons_append, List.append_assoc,
      readFrom_markup, markup_instruction_fault h hmark] at hread
    cases hread
  | .empty _, _, _, _ => trivial
  | .element tag children gap hgap, openNames, rest, hread => by
    rw [Piece.Closed]
    rw [Piece.render, SourceTag.elementText, List.cons_append, List.append_assoc, List.cons_append,
      List.append_assoc, tag.readFrom_opened] at hread
    exact closed_of_readFrom_pieces children hread

theorem closed_of_readFrom_pieces : ∀ (pieces : List Piece) {openNames : List Text} {rest : Text},
    (readFrom openNames (renderPieces pieces ++ rest)).fault? = none → PiecesClosed pieces
  | [], _, _, _ => trivial
  | piece :: others, openNames, rest, hread => by
    rw [renderPieces, List.append_assoc] at hread
    have hpiece := closed_of_readFrom_piece piece hread
    rw [readFrom_piece piece hpiece] at hread
    exact ⟨hpiece, closed_of_readFrom_pieces others hread⟩

end

theorem Document.readable_of_read {d : Document}
    (hbalanced : ∀ doctype ∈ d.doctype?, doctype.Balanced) (h : (read d.render).fault? = none) :
    d.Readable := by
  refine ⟨?_, hbalanced⟩
  rw [read_eq_readFrom, Document.render] at h
  have hbefore := closed_of_readFrom_pieces d.before h
  rw [readFrom_pieces d.before hbefore] at h
  replace h : (readFrom [] (d.doctype?.elim [] Doctype.render ++ (renderPieces d.between ++
      (d.root.render ++ renderPieces d.behind)))).fault? = none := h
  rw [Document.readFrom_doctype hbalanced] at h
  have hbetween := closed_of_readFrom_pieces d.between h
  rw [readFrom_pieces d.between hbetween] at h
  have hroot : PiecesClosed (d.root :: d.behind) := by
    rw [← List.append_nil (_ ++ renderPieces d.behind)] at h
    exact closed_of_readFrom_pieces (d.root :: d.behind) h
  exact piecesClosed_append.2 ⟨hbefore, piecesClosed_append.2 ⟨hbetween, hroot⟩⟩

end Xml

open Xml (Element)

/-! ## Values files -/

/-- Each values file among the files holds a document in whose document type declaration the marks
are balanced. -/
def HoldsDocuments (fs : FileSystem) (files : List Path) (documentOf : Path → Xml.Document) :
    Prop :=
  ∀ file ∈ files, ResourceFolder.ofFile? file = some .values →
    fs.readSource file = .ok (documentOf file).render ∧
      ∀ doctype ∈ (documentOf file).doctype?, doctype.Balanced

/-- The children of the roots of the documents in values files, file by file. -/
def valuesChildren (files : List Path) (documentOf : Path → Xml.Document) : List Element :=
  (files.filter fun file => ResourceFolder.ofFile? file = some .values).flatMap fun file =>
    (documentOf file).element.children

section

variable {fs : FileSystem} {file : Path} {files : List Path} {documentOf : Path → Xml.Document}
  {declared : List Declaration} {table : SymbolTable}

theorem valuesChildren_cons (hvalues : ResourceFolder.ofFile? file = some .values) :
    valuesChildren (file :: files) documentOf =
      (documentOf file).element.children ++ valuesChildren files documentOf := by
  simp [valuesChildren, hvalues]

theorem valuesChildren_cons_other (hvalues : ResourceFolder.ofFile? file ≠ some .values) :
    valuesChildren (file :: files) documentOf = valuesChildren files documentOf := by
  simp [valuesChildren, hvalues]

theorem fileSymbols_values {d : Xml.Document} (hvalues : ResourceFolder.ofFile? file = some .values)
    (hsource : fs.readSource file = .ok d.render)
    (hbalanced : ∀ doctype ∈ d.doctype?, doctype.Balanced)
    (h : fileSymbols fs file = .ok declared) :
    declared = d.element.children.flatMap walkedContribution := by
  unfold fileSymbols at h
  rw [hvalues, hsource] at h
  replace h : (readValues d.render).mapError (BuildError.xml file) = .ok declared := h
  have hread : readValues d.render = .ok declared := by
    cases hread : readValues d.render with
    | error fault =>
      rw [hread] at h
      cases h
    | ok read =>
      rw [hread] at h
      cases h
      rfl
  have hreadable : d.Readable :=
    Xml.Document.readable_of_read hbalanced (readValues_eq_ok.1 hread).1
  rw [readValues_eq hreadable] at hread
  exact (Except.ok.inj hread).symm

theorem not_styleable_of_fileSymbols (hvalues : ResourceFolder.ofFile? file ≠ some .values)
    (h : fileSymbols fs file = .ok declared) : ∀ d ∈ declared, d.1.type ≠ "styleable".toList := by
  have hfolders : ∀ folder : ResourceFolder, folder.name ≠ "styleable".toList := by
    intro folder
    cases folder <;> decide
  cases hfolder : ResourceFolder.ofFile? file with
  | none =>
    unfold fileSymbols at h
    rw [hfolder] at h
    cases h
    simp
  | some folder =>
    have hnamed : ∀ d ∈ namedResource folder file, d.1.type ≠ "styleable".toList := by
      unfold namedResource
      intro d hd
      dsimp only at hd
      split at hd
      · cases hd
      · rw [List.mem_singleton.1 hd]
        exact hfolders folder
    have hother : folder ≠ .values := fun heq => hvalues (by rw [hfolder, heq])
    obtain ⟨contents, -, -, -, rfl⟩ | ⟨-, rfl⟩ := fileSymbols_eq_ok hfolder hother h
    · intro d hd
      rcases List.mem_append.1 hd with hd | hd
      · exact hnamed d hd
      · obtain ⟨name, -, rfl⟩ := List.mem_map.1 hd
        exact (show "id".toList ≠ "styleable".toList by decide)
    · exact hnamed

/-! ## The table of all files -/

theorem SymbolTable.get?_declare_filter (table : SymbolTable) (declared : List Declaration)
    (id : SymbolId) :
    (table.declare declared).get? id = (table.declare (declared.filter (·.1 = id))).get? id := by
  rw [get?_declare_eq, get?_declare_eq, ← List.filter_reverse, List.find?_filter]
  simp

/-- The declarations that are looked for come from values files, if no other file has one. -/
theorem filter_flatten_fileSymbols (keep : Declaration → Bool) {all : List (List Declaration)}
    (hdocuments : HoldsDocuments fs files documentOf)
    (hother : ∀ file ∈ files, ResourceFolder.ofFile? file ≠ some .values →
      ∀ declared, fileSymbols fs file = .ok declared → declared.filter keep = [])
    (hall : List.Forall₂ (fun file declared => fileSymbols fs file = .ok declared) files all) :
    all.flatten.filter keep =
      ((valuesChildren files documentOf).flatMap walkedContribution).filter keep := by
  induction hall with
  | nil => rfl
  | @cons file declared rest _ hfile _ ih =>
    rw [List.flatten_cons, List.filter_append,
      ih (fun other hmem => hdocuments other (List.mem_cons_of_mem _ hmem))
        fun other hmem => hother other (List.mem_cons_of_mem _ hmem)]
    by_cases hvalues : ResourceFolder.ofFile? file = some .values
    · obtain ⟨hsource, hbalanced⟩ := hdocuments file (List.mem_cons_self ..) hvalues
      rw [fileSymbols_values hvalues hsource hbalanced hfile, valuesChildren_cons hvalues,
        List.flatMap_append, List.filter_append]
    · rw [valuesChildren_cons_other hvalues,
        hother file (List.mem_cons_self ..) hvalues declared hfile, List.nil_append]

theorem get?_styleable_collectSymbols (hdocuments : HoldsDocuments fs files documentOf)
    (h : collectSymbols fs files = .ok table) (symbol : Text) :
    table.get? ⟨"styleable", symbol⟩ =
      (SymbolTable.declare .empty ((valuesChildren files documentOf).flatMap contribution)).get?
        ⟨"styleable", symbol⟩ := by
  obtain ⟨all, hall, rfl⟩ := collectSymbols_eq_ok h
  rw [← SymbolTable.declare_contributions, SymbolTable.get?_declare_filter,
    SymbolTable.get?_declare_filter _ (List.flatMap ..),
    filter_flatten_fileSymbols _ hdocuments ?_ (mapM_eq_ok.1 hall)]
  intro file _ hvalues declared hfile
  refine List.filter_eq_nil_iff.2 fun d hd heq => ?_
  exact not_styleable_of_fileSymbols hvalues hfile d hd (by rw [of_decide_eq_true heq])

theorem collectSymbols_values (hdocuments : HoldsDocuments fs files documentOf)
    (hvalues : ∀ file ∈ files, ResourceFolder.ofFile? file = some .values)
    (h : collectSymbols fs files = .ok table) :
    table =
      SymbolTable.declare .empty ((valuesChildren files documentOf).flatMap contribution) := by
  obtain ⟨all, hall, rfl⟩ := collectSymbols_eq_ok h
  have hfilter := filter_flatten_fileSymbols (fun _ => true) hdocuments
    (fun file hfile hnot => absurd (hvalues file hfile) hnot) (mapM_eq_ok.1 hall)
  rw [List.filter_true, List.filter_true] at hfilter
  rw [← SymbolTable.declare_contributions, hfilter]

end

/-! ## One values file -/

def wordName (word : Text) (hne : word.isEmpty = false)
    (h : word.all fun c => Xml.isSpace c = false ∧ c ∉ Xml.nameMarks) : Xml.Name :=
  nameOf word ⟨List.isEmpty_eq_false_iff.1 hne, Text.forall_of_all h⟩

def valuesFile (contents : Text) : FileSystem :=
  ((FileSystem.empty.place ["res"] .directory).place ["res", "values"] .directory).place
    ["res", "values", "a.xml"] (.file (Text.toUtf8 contents))

theorem readSource_valuesFile (contents : Text) :
    (valuesFile contents).readSource "res/values/a.xml" = .ok contents := by
  have hread : (valuesFile contents).readBytes "res/values/a.xml" = .ok (Text.toUtf8 contents) :=
    FileSystem.readBytes_eq_ok.2 ⟨["res", "values", "a.xml"], rfl, rfl⟩
  unfold FileSystem.readSource FileSystem.readText
  rw [hread]
  simp only [Text.ofUtf8?_toUtf8]
  rfl

theorem holdsDocuments_valuesFile {d : Xml.Document} (h : d.Readable) :
    HoldsDocuments (valuesFile d.render) ["res/values/a.xml"] (fun _ => d) := by
  intro file hfile _
  rw [List.mem_singleton.1 hfile]
  exact ⟨readSource_valuesFile d.render, h.balanced⟩

theorem collectSymbols_valuesFile {d : Xml.Document} (h : d.Readable) :
    collectSymbols (valuesFile d.render) ["res/values/a.xml"] =
      .ok (SymbolTable.declare .empty (d.element.children.flatMap contribution)) := by
  have hfolder : ResourceFolder.ofFile? "res/values/a.xml" = some .values := by decide
  have hfile : fileSymbols (valuesFile d.render) "res/values/a.xml" =
      .ok (d.element.children.flatMap walkedContribution) := by
    unfold fileSymbols
    rw [hfolder, readSource_valuesFile]
    show (readValues d.render).mapError (BuildError.xml "res/values/a.xml") = _
    rw [readValues_eq h]
    rfl
  rw [← SymbolTable.declare_contributions]
  unfold collectSymbols
  rw [List.mapM_cons, hfile]
  show Except.ok (SymbolTable.declare .empty [_].flatten) = _
  rw [List.flatten_singleton]

end AndroidResources
