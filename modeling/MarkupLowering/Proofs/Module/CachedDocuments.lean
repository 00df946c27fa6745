import MarkupLowering.Proofs.Emitter.SequencePoints
import MarkupLowering.Proofs.Module.Closure
import MarkupLowering.Proofs.Utf8Order

/-!
# MarkupLowering.Proofs.Module.CachedDocuments

**The documents of a module, over whole histories.** Files are mentioned by look-ups and by the
debug captures of any emitter, with any contents. What becomes of the cache depends on the mentions
alone, and for each path only on the first one.

* The cache after a history is that after its mentions (`History.documents`), so what is said of
  caches holds of modules: each path has one document, that of the first file mentioned under it
  (`DocumentCache.find?_mentionAll`), and one digest was computed for each document
  (`DocumentCache.Orderly`). The digest is the SHA-256 digest of that file's contents
  (`Document.ofFile_eq_iff`).
* Points of finished bodies refer to these documents. On the way to a body documents lie in open
  captures and in recorded points; there they are cached already (`Session.Filed`).
* `documents_by_first_mention` is the main statement.
-/

namespace MarkupLowering

/-! ### Caches -/

/-- What the document of a file is: the file's path, and the SHA-256 digest of its contents. -/
theorem Document.ofFile_eq_iff {file : SourceFile} {d : Document} :
    ofFile file = d ↔ d.path = file.path ∧ d.digest = Digest.Sha256.digest file.contents := by
  cases d with
  | mk path digest =>
    rw [ofFile, mk.injEq]
    exact and_congr eq_comm eq_comm

namespace DocumentCache

/-- The cache after files were mentioned in order. -/
def mentionAll (c : DocumentCache) (files : List SourceFile) : DocumentCache :=
  files.foldl (fun c file => (c.findOrCreate file).2) c

theorem mentionAll_append (c : DocumentCache) (files files' : List SourceFile) :
    c.mentionAll (files ++ files') = (c.mentionAll files).mentionAll files' :=
  List.foldl_append

/-- A mention adds a document of its path, if there is none. -/
theorem find?_mention (c : DocumentCache) (file : SourceFile) (path : String) :
    (c.findOrCreate file).2.find? path =
      (c.find? path).or (if file.path == path then some (.ofFile file) else none) := by
  unfold findOrCreate
  cases hfile : c.find? file.path with
  | some d =>
    by_cases hpath : file.path = path
    · rw [← hpath, hfile]
      rfl
    · rw [if_neg (by simpa using hpath), Option.or_none]
  | none =>
    unfold find?
    rw [List.find?_append, List.find?_singleton]
    rfl

/-- A path has the document of its first mention, unless it had one before. -/
theorem find?_mentionAll (c : DocumentCache) (files : List SourceFile) (path : String) :
    (c.mentionAll files).find? path =
      (c.find? path).or ((files.find? (·.path == path)).map .ofFile) := by
  induction files generalizing c with
  | nil => exact Option.or_none.symm
  | cons file files ih =>
    have hstep := ih (c.findOrCreate file).2
    rw [find?_mention, Option.or_assoc] at hstep
    refine hstep.trans (congrArg _ ?_)
    rw [List.find?_cons]
    cases file.path == path <;> rfl

/-- A path that has a document gets it, whatever the contents are now. -/
theorem findOrCreate_of_find? {c : DocumentCache} {file : SourceFile} {d : Document}
    (h : c.find? file.path = some d) : c.findOrCreate file = (d, c) := by
  rw [findOrCreate, h]

/-- Each path has one document, and each document was digested once. -/
structure Orderly (c : DocumentCache) : Prop where
  distinct : (c.documents.map Document.path).Nodup
  digests : c.digests = c.size

namespace Orderly

variable {c : DocumentCache}

theorem empty : DocumentCache.empty.Orderly := ⟨List.nodup_nil, rfl⟩

theorem mention (h : c.Orderly) (file : SourceFile) : (c.findOrCreate file).2.Orderly := by
  unfold findOrCreate
  cases hfile : c.find? file.path with
  | some d => exact h
  | none =>
    constructor
    · have hnew : ∀ d ∈ c.documents, d.path ≠ file.path := by
        simpa [find?] using hfile
      simpa [List.nodup_append, h.distinct, Document.ofFile] using hnew
    · simpa [size] using h.digests

theorem mentionAll (h : c.Orderly) (files : List SourceFile) : (c.mentionAll files).Orderly := by
  induction files generalizing c with
  | nil => exact h
  | cons file files ih => exact ih (h.mention file)

/-- The documents are those that their paths have. -/
theorem mem_iff (h : c.Orderly) {d : Document} : d ∈ c.documents ↔ c.find? d.path = some d := by
  refine ⟨fun hd => ?_, List.mem_of_find?_eq_some⟩
  have hsome : (c.find? d.path).isSome = true := List.find?_isSome.mpr ⟨d, hd, BEq.rfl⟩
  obtain ⟨d', hd'⟩ := Option.isSome_iff_exists.mp hsome
  -- two documents of one path are one
  have hdistinct := List.pairwise_map.mp h.distinct
  have hone := List.Pairwise.forall_of_forall_of_flip (R := fun a b => a.path = b.path → a = b)
    (fun _ _ _ => rfl) (hdistinct.imp fun hne heq => absurd heq hne)
    (hdistinct.imp fun hne heq => absurd heq.symm hne)
  rw [hd', hone (List.mem_of_find?_eq_some hd') hd (path_of_find? c hd')]

/-- The documents are listed in the order of the bytes of their paths, and no path twice. -/
theorem snapshot_ascending (h : c.Orderly) :
    c.snapshot.Pairwise fun a b => utf8Bytes a.path < utf8Bytes b.path := by
  have hperm := List.mergeSort_perm c.documents fun a b => decide (a.path ≤ b.path)
  have hdistinct : c.snapshot.Pairwise fun a b => a.path ≠ b.path :=
    (hperm.pairwise_iff fun hab => hab.symm).mpr (List.pairwise_map.mp h.distinct)
  have hsorted : c.snapshot.Pairwise fun a b => decide (a.path ≤ b.path) = true := by
    refine List.pairwise_mergeSort (fun a b d hab hbd => decide_eq_true ?_) (fun a b => ?_) _
    · exact String.le_trans (of_decide_eq_true hab) (of_decide_eq_true hbd)
    · simpa using String.le_total a.path b.path
  refine hsorted.imp₂ (fun a b hle hne => lt_iff_utf8Bytes_lt.mp ?_) hdistinct
  exact String.not_le.mp fun hge => hne (String.le_antisymm (of_decide_eq_true hle) hge)

end Orderly

end DocumentCache

/-! ### Mentions in a history -/

/-- The file that a request mentions. -/
def Request.file? : Request → Option SourceFile
  | .beginCapture file _ => some file
  | _ => none

/-- The file that an action mentions. -/
def Action.file? : Action → Option SourceFile
  | .document file => some file
  | .request _ r => r.file?
  | _ => none

/-- The files that were mentioned, in order. -/
def mentions (log : List Turn) : List SourceFile := log.filterMap (·.action.file?)

/-- A request changes the cache by what it mentions only. -/
theorem Request.documents_perform (r : Request) (s : Emission) :
    (Result.state (r.perform s)).module.documents =
      s.module.documents.mentionAll r.file?.toList := by
  cases r with
  | emit op x => exact Emission.keepsCache_emit op x _ s rfl
  | defineLocal type =>
    exact Keeps.bind (Emission.keepsCache_defineLocal type _) (fun _ => Keeps.pure _) s rfl
  | defineLabel => rfl
  | markLabel l =>
    unfold perform Emission.markLabel
    dsimp only
    split <;> rfl
  | beginCapture file position => rfl
  | endCapture id => rfl

namespace Session

variable {s s' : Session} {a : Action}

/-- An action that mentions no file leaves the cache alone. -/
theorem Changes.documents (h : s.Changes a s') (ha : a.file? = none) :
    s'.module.documents = s.module.documents := by
  cases h with
  | built hgranted => exact hgranted.documents
  | @requested k r e t he hr =>
    have hdocuments := r.documents_perform ⟨s.module, e⟩
    rw [hr, show r.file? = none from ha] at hdocuments
    exact hdocuments
  | @finished k e m he hm =>
    have hdocuments := e.documents_finish s.module
    rw [hm] at hdocuments
    exact hdocuments
  | documented file => cases ha
  | idle | opened | closed | imported | allotted | extended => rfl

theorem module_after_request {k : Nat} {r : Request} {e : Emitter} (he : s.emitters k = some e) :
    (s.after (.request k r)).module = (Result.state (r.perform ⟨s.module, e⟩)).module := by
  simp only [after, Action.perform, requesting, he]
  split <;> rename_i hr <;> rw [hr] <;> rfl

/-- An action changes the cache by what it mentions only. -/
theorem documents_after (h : s.Permits a) :
    (s.after a).module.documents = s.module.documents.mentionAll a.file?.toList := by
  cases hfile : a.file? with
  | none => exact (s.changes_after a).documents hfile
  | some file =>
    cases a with
    | document =>
      cases hfile
      rfl
    | request k r =>
      obtain ⟨e, he⟩ := Option.isSome_iff_exists.mp h
      rw [module_after_request he, r.documents_perform ⟨s.module, e⟩, show r.file? = _ from hfile]
    | build | openEmitter | finish | drop | importing | allot | addInterface => cases hfile

end Session

theorem mentions_append (log : List Turn) (t : Turn) :
    mentions (log ++ [t]) = mentions log ++ t.action.file?.toList := by
  rw [mentions, mentions, List.filterMap_append, List.filterMap_cons]
  cases t.action.file? <;> rfl

/-- The cache of a module depends on the mentions alone. -/
theorem History.documents {s₀ s : Session} {log : List Turn} (h : History s₀ log s) :
    s.module.documents = s₀.module.documents.mentionAll (mentions log) := by
  induction h with
  | start => rfl
  | turn a _ ha ih =>
    rw [Session.documents_after ha, ih, mentions_append, DocumentCache.mentionAll_append]

/-! ### Documents of captures and points -/

/-- The document is the cached one of its path. -/
def DocumentCache.Holds (c : DocumentCache) (d : Document) : Prop := c.find? d.path = some d

theorem DocumentCache.holds_mention (c : DocumentCache) (file : SourceFile) :
    (c.findOrCreate file).2.Holds (c.findOrCreate file).1 := by
  rw [Holds, path_findOrCreate]
  exact c.find?_findOrCreate_self file

/-- Open captures and recorded points refer to cached documents. -/
structure Emitter.Filed (c : DocumentCache) (e : Emitter) : Prop where
  captures : ∀ o ∈ e.openCaptures, c.Holds o.document
  points : ∀ p ∈ e.debug.points, c.Holds p.document

namespace Emitter.Filed

variable {c : DocumentCache} {e e' : Emitter}

/-- More documents do no harm. -/
theorem mono (h : e.Filed c) {m m' : Module} (hc : m.documents = c) (hkeeps : m.KeepsDocuments m') :
    e.Filed m'.documents := by
  subst hc
  exact ⟨fun o ho => hkeeps _ _ (h.captures o ho), fun p hp => hkeeps _ _ (h.points p hp)⟩

theorem of_untouched (h : e.Untouched) : e.Filed c := by
  constructor
  · rw [h.openCaptures]
    exact nofun
  · rw [h.debug]
    exact nofun

theorem of_sameDebug (h : e.Filed c) (hsame : e.SameDebug e') : e'.Filed c := by
  constructor
  · rw [hsame.openCaptures]
    exact h.captures
  · rw [hsame.debug]
    exact h.points

/-- A capture that ends leaves a point in its own document. -/
theorem endCapture (h : e.Filed c) (id : Nat) : (e.endCapture id).Filed c := by
  constructor
  · rw [openCaptures_endCapture]
    exact fun o ho => h.captures o (List.mem_of_mem_eraseP ho)
  · unfold Emitter.endCapture
    split
    · exact h.points
    · rename_i o ho
      rw [record_eq]
      dsimp only
      split
      · rw [DebugInfo.points_addPoint, List.forall_mem_append, List.forall_mem_singleton]
        exact ⟨h.points, h.captures o (List.mem_of_find?_eq_some ho)⟩
      · exact h.points

/-- All points of a body in the making, finished or not, are in cached documents. -/
theorem allPoints (h : e.Filed c) : ∀ p ∈ e.allPoints, c.Holds p.document := by
  rw [Emitter.allPoints, List.forall_mem_append]
  refine ⟨h.points, fun p hp => ?_⟩
  obtain ⟨o, ho, rfl⟩ := List.mem_map.mp hp
  exact h.captures o (List.mem_reverse.mp (List.mem_filter.mp ho).1)

end Emitter.Filed

/-- A request leaves captures and points in cached documents. -/
theorem Request.filed {r : Request} {s s' : Emission} (h : r.perform s = .ok () s')
    (hs : s.emitter.Filed s.module.documents) : s'.emitter.Filed s'.module.documents := by
  have hkeeps := r.keepsDocuments s
  rw [h] at hkeeps
  have hmono := hs.mono rfl hkeeps
  cases r with
  | beginCapture file position =>
    cases h
    rcases s.beginCapture_cases file position with ⟨-, -, he⟩ | ⟨-, -, he⟩
    · rw [he]
      exact hmono
    · rw [he]
      refine ⟨?_, hmono.points⟩
      rw [List.forall_mem_append, List.forall_mem_singleton]
      -- the capture refers to what the look-up returned
      exact ⟨hmono.captures, s.module.documents.holds_mention file⟩
  | endCapture id =>
    cases h
    exact hs.endCapture id
  | emit | defineLocal | defineLabel | markLabel =>
    exact hmono.of_sameDebug (sameDebug (by simp) (by simp) h)

namespace Session

variable {s s' : Session} {a : Action}

/-- Emitters and bodies refer to cached documents. -/
structure Filed (s : Session) : Prop where
  emitters : ∀ k e, s.emitters k = some e → e.Filed s.module.documents
  bodies : ∀ row body, s.module.bodyAt row = some body →
    ∀ p ∈ body.debug.points, s.module.documents.Holds p.document

theorem Changes.keepsDocuments (h : s.Changes a s') : s.module.KeepsDocuments s'.module := by
  have hsame := h.documents
  cases h with
  | @requested k r e t he hr =>
    have hkeeps := r.keepsDocuments ⟨s.module, e⟩
    rw [hr] at hkeeps
    exact hkeeps
  | documented file => exact .document s.module file
  | built | finished => exact .of_eq (hsame rfl)
  | idle | opened | closed | imported | allotted | extended => exact .of_eq rfl

theorem Filed.changes (hs : s.Filed) (h : s.Changes a s') : s'.Filed := by
  have hkeeps := h.keepsDocuments
  constructor
  · intro k e he
    rcases h.emitter_inv he with hold | ⟨owner, hopen⟩ | ⟨r, e₀, t, rfl, he₀, hr, rfl, hmodule⟩
    · exact (hs.emitters k e hold).mono rfl hkeeps
    · exact .of_untouched (Module.untouched_emitter hopen)
    · rw [hmodule]
      exact Request.filed hr (hs.emitters k e₀ he₀)
  · intro row body hbody p hp
    rcases h.bodyAt_inv hbody with hold | ⟨k, e, he, hfinished⟩
    · exact hkeeps _ _ (hs.bodies row body hold p hp)
    · rw [(Emitter.debug_finishedBody hfinished).1, List.mem_mergeSort] at hp
      exact hkeeps _ _ ((hs.emitters k e he).allPoints p hp)

theorem Filed.start (h : Hierarchy) (id : Nat) (name : String) (core : CoreTypes) :
    (Session.start h id name core).Filed :=
  ⟨nofun, nofun⟩

end Session

/-! ### The main statement -/

/-- What a mention returned is the document that the path has from then on. -/
theorem History.find?_mentioned {s₀ s : Session} {log : List Turn} (h : History s₀ log s) :
    ∀ t ∈ log, ∀ file, t.action.file? = some file →
      s.module.documents.find? file.path = some (t.session.module.document file).1 := by
  induction h with
  | start => exact List.forall_mem_nil _
  | @turn log s a _ ha ih =>
    rw [List.forall_mem_append, List.forall_mem_singleton]
    constructor
    · intro t ht file hfile
      exact (s.changes_after a).keepsDocuments _ _ (ih t ht file hfile)
    · intro file hfile
      rw [Session.documents_after ha, show a.file? = some file from hfile]
      exact s.module.documents.find?_findOrCreate_self file

/-- The documents of a module after any history. The documents are those of the files that were
mentioned, in a look-up or for a capture of any emitter: one for each path, with the SHA-256 digest
of the contents that the path was first mentioned with. As many digests were computed. What a
mention returned is the document of the mentioned path, is among the documents, and is returned for
its path again, whatever the contents are. The documents are listed in the order of the bytes of
their paths, each once. And all sequence points of all bodies refer to the documents that their
paths have. -/
theorem documents_by_first_mention {h : Hierarchy} {id : Nat} {name : String} {core : CoreTypes}
    {log : List Turn} {s : Session} (hs : History (.start h id name core) log s) :
    (∀ d, d ∈ s.module.documents.documents ↔
      ∃ file, (mentions log).find? (·.path == d.path) = some file ∧
        d.path = file.path ∧ d.digest = Digest.Sha256.digest file.contents) ∧
    (s.module.documents.documents.map Document.path).Nodup ∧
    s.module.documents.digests = s.module.documents.size ∧
    (∀ t ∈ log, ∀ file, t.action.file? = some file →
      (t.session.module.document file).1.path = file.path ∧
        (t.session.module.document file).1 ∈ s.module.documents.documents ∧
        ∀ file', file'.path = file.path →
          (s.module.document file').1 = (t.session.module.document file).1) ∧
    s.module.documents.snapshot.Perm s.module.documents.documents ∧
    s.module.documents.snapshot.Pairwise (fun a b => utf8Bytes a.path < utf8Bytes b.path) ∧
    ∀ row body, s.module.bodyAt row = some body → ∀ p ∈ body.debug.points,
      s.module.documents.find? p.document.path = some p.document := by
  have hdocuments : s.module.documents = DocumentCache.empty.mentionAll (mentions log) :=
    hs.documents
  have horderly : s.module.documents.Orderly := by
    rw [hdocuments]
    exact .mentionAll .empty _
  have hfiled : s.Filed := hs.keeps (fun _ _ _ hs _ h => hs.changes h) (.start ..)
  refine ⟨fun d => ?_, horderly.distinct, horderly.digests, fun t ht file hfile => ?_,
    List.mergeSort_perm _ _, horderly.snapshot_ascending, hfiled.bodies⟩
  · have hempty : DocumentCache.empty.find? d.path = none := rfl
    rw [horderly.mem_iff, hdocuments, DocumentCache.find?_mentionAll, hempty, Option.none_or,
      Option.map_eq_some_iff]
    exact exists_congr fun file => and_congr_right fun _ => Document.ofFile_eq_iff
  · have hfind := hs.find?_mentioned t ht file hfile
    refine ⟨DocumentCache.path_of_find? _ hfind, List.mem_of_find?_eq_some hfind,
      fun file' hpath => ?_⟩
    rw [← hpath] at hfind
    rw [Module.document, DocumentCache.findOrCreate_of_find? hfind]

/-! ### Two files, one of them changed -/

def partFile : SourceFile := ⟨"Part.xaml", "<Part/>".toUTF8⟩
def mainFile : SourceFile := ⟨"Main.xaml", "<Grid/>".toUTF8⟩

/-- The main file, with other contents. -/
def changedFile : SourceFile := ⟨"Main.xaml", "<Panel/>".toUTF8⟩

/-- One file is looked up, another captured, and then looked up again when it has changed. The
document returned for the changed file has the digest of the first contents. -/
theorem documents_by_first_mention_changedFile :
    ∃ log s, History (.start .empty 0 "m" default) log s ∧
      mentions log = [partFile, mainFile, changedFile] ∧
      (s.module.document changedFile).1 ∈ s.module.documents.documents ∧
      (s.module.document changedFile).1.path = "Main.xaml" ∧
      (s.module.document changedFile).1.digest = Digest.Sha256.digest mainFile.contents ∧
      s.module.documents.digests = s.module.documents.size ∧
      s.module.documents.snapshot.Pairwise (fun a b => utf8Bytes a.path < utf8Bytes b.path) ∧
      (s.module.bodyAt 0).isSome ∧
      ∀ row body, s.module.bodyAt row = some body → ∀ p ∈ body.debug.points,
        s.module.documents.find? p.document.path = some p.document := by
  have hs := ((((((history_oneType.turn (.build (.method firstBuilder firstMethod))
    (permits_firstBuilder rfl)).turn (.document partFile) trivial).turn
    (.openEmitter 0 (.method firstMethodRef)) trivial).turn
    (.request 0 (.beginCapture mainFile ⟨1, 1⟩)) rfl).turn (.request 0 (.emit .ret .none)) rfl).turn
    (.document changedFile) trivial).turn (.finish 0) rfl
  obtain ⟨hmem, -, hdigests, hreturned, -, hsorted, hpoints⟩ := documents_by_first_mention hs
  -- the capture of the main file is the fourth turn
  obtain ⟨hpath, hmain, hagain⟩ := hreturned _ (List.mem_append_left _ <| List.mem_append_left _ <|
    List.mem_append_left _ <| List.mem_append_right _ List.mem_cons_self) mainFile rfl
  have hsame := hagain changedFile rfl
  rw [← hsame] at hpath hmain
  obtain ⟨file, hfirst, -, hdigest⟩ := (hmem _).mp hmain
  -- of the files with this path, the main file was mentioned first
  rw [hpath] at hfirst
  obtain rfl : mainFile = file := Option.some.inj hfirst
  exact ⟨_, _, hs, rfl, hmain, hpath, hdigest, hdigests, hsorted, rfl, hpoints⟩

end MarkupLowering
