import DesignTokens.Proofs.Registry.Query
import DesignTokens.Proofs.Token.Document

/-!
# Exports

An export is a text in ASCII with one object for each token of the catalog. The file holds it
as it is, and every token is recovered from its object. So the tokens are known from the
export.
-/

namespace DesignTokens

/-!
## The exported text
-/

namespace Token

/--
Whether a text in ASCII is an array of objects, from which these tokens are recovered in
their order.
-/
structure IsExportOf (text : Text) (tokens : List Token) : Prop where
  ascii : ∀ c ∈ text, c.toNat < 128
  recovered : ∃ items, Json.ofText? text = some (.array items) ∧
    List.Forall₂ (fun token item => (∃ fields, item = .object fields) ∧
      ofDocument? item = some token) tokens items

theorem IsExportOf.unique {text : Text} {ts us : List Token} (ht : IsExportOf text ts)
    (hu : IsExportOf text us) : ts = us := by
  rcases ht.recovered with ⟨items, hread, hts⟩
  rcases hu.recovered with ⟨others, hread', hus⟩
  rw [hread] at hread'
  cases hread'
  clear hread ht hu
  induction hts generalizing us with
  | nil =>
      cases hus
      rfl
  | @cons t item ts items htoken _ ih =>
      cases hus with
      | @cons u _ us _ hother hrest =>
          have hequal : t = u := Option.some.inj (htoken.2.symm.trans hother.2)
          rw [hequal, ih hrest]

theorem legible_documents (ts : List Token) :
    Json.IsLegible (.array (ts.map (document .plain))) := by
  refine .array ?_
  rw [List.forall_mem_map]
  exact fun t _ => recovers.legible t

theorem isWritten_exported (ts : List Token) : ∀ c ∈ exported ts, Json.IsWritten c :=
  (legible_documents ts).isWritten 0

theorem isExportOf_exported (ts : List Token) : IsExportOf (exported ts) ts := by
  refine ⟨?_, _, Json.ofText?_written (legible_documents ts), ?_⟩
  · intro c hc
    rcases isWritten_exported ts c hc with rfl | ⟨_, hlt⟩
    · decide
    · omega
  · induction ts with
    | nil => exact .nil
    | cons t ts ih => exact .cons ⟨⟨_, rfl⟩, recovers.read_write t⟩ ih

end Token

/-!
## The file
-/

namespace Files

def textAt? (files : Files) (p : Path) : Option Text :=
  (files.read p).toOption.bind text?

/-- Whether a file can be written under a path. -/
def CanWrite (files : Files) (p : Path) : Prop :=
  p.hasNull = false ∧ ∃ name, files.nameOf p = .ok name

/-- Which files there are tells only which fault a path has. -/
theorem nameFrom_of_ok {files : Files} (others : Files) {names : List Text} {lead name : Text}
    (h : files.nameFrom lead names = .ok name) : others.nameFrom lead names = .ok name := by
  induction names generalizing lead with
  | nil => cases h
  | cons n names ih =>
      unfold nameFrom at h ⊢
      split
      · rename_i hup
        rw [if_pos hup] at h
        exact ih h
      · rename_i hup
        rw [if_neg hup] at h
        split
        · rename_i hlong
          rw [if_pos hlong] at h
          exact h
        · rename_i hlong
          rw [if_neg hlong] at h
          split
          · rename_i hlast
            rwa [if_pos hlast] at h
          · rename_i hlast
            rw [if_neg hlast] at h
            cases h

theorem nameOf_of_ok {files : Files} (others : Files) {p : Path} {name : Text}
    (h : files.nameOf p = .ok name) : others.nameOf p = .ok name := by
  unfold nameOf at h ⊢
  split
  · rename_i hlong
    rwa [if_pos hlong] at h
  · rename_i hlong
    rw [if_neg hlong] at h
    exact nameFrom_of_ok others h

theorem withLineFeeds_eq_self {t : Text} (h : ∀ c ∈ t, c ≠ '\r') : withLineFeeds t = t := by
  induction t with
  | nil => rfl
  | cons c t ih =>
      rw [List.forall_mem_cons] at h
      rw [withLineFeeds.eq_def]
      split
      · rename_i heq
        cases heq
      · rename_i heq
        exact absurd (List.cons.inj heq).1 h.1
      · rename_i heq
        exact absurd (List.cons.inj heq).1 h.1
      · rename_i heq
        cases heq
        rw [ih h.2]

theorem textAt?_write {files : Files} {p : Path} {name t : Text} (hname : files.nameOf p = .ok name)
    (ht : ∀ c ∈ t, c ≠ '\r') :
    ∃ files', files.write p (String.ofList t).toUTF8 = .ok files' ∧ files'.textAt? p = some t := by
  refine ⟨Table.put name (String.ofList t).toUTF8 files, by rw [write, hname]; rfl, ?_⟩
  have hread : read (Table.put name (String.ofList t).toUTF8 files) p =
      .ok (String.ofList t).toUTF8 := by
    rw [read, nameOf_of_ok _ hname, Except.ok_bind, Table.put, Table.get?_change, if_pos rfl]
    rfl
  have hdecode : (String.ofList t).toUTF8.utf8Decode? = some t.toArray :=
    List.utf8Decode?_utf8Encode
  rw [textAt?, hread]
  change text? _ = _
  rw [text?, hdecode, Option.map_some, List.toList_toArray, withLineFeeds_eq_self ht]

theorem canWrite_of_write {files files' : Files} {p : Path} {bytes : ByteArray}
    (hnull : p.hasNull = false) (h : files.write p bytes = .ok files') : files.CanWrite p := by
  refine ⟨hnull, ?_⟩
  cases hname : files.nameOf p with
  | ok name => exact ⟨name, rfl⟩
  | error fault =>
      rw [write, hname] at h
      cases h

end Files

namespace Registry

variable {s s' : Session} {catalog : Catalog} {p : Path} {text : Text}

theorem exportTo_eq (hcatalog : s.registry.catalog = some catalog) :
    exportTo p s =
      if p.hasNull then .error .nullInPath s
      else
        match s.files.write p (String.ofList (Token.exported catalog.all)).toUTF8 with
        | .error fault => .error (.unwritable p fault) s
        | .ok files => .ok (Token.exported catalog.all) { s with files := files } := by
  unfold exportTo
  rw [Action.bind_run (loaded_run hcatalog)]
  cases p.hasNull with
  | true => rfl
  | false =>
      simp only [Bool.false_eq_true, if_false, Action.get_bind_run]
      cases s.files.write p (String.ofList (Token.exported catalog.all)).toUTF8 <;> rfl

theorem exportTo_run (hcatalog : s.registry.catalog = some catalog) (hwrite : s.files.CanWrite p) :
    ∃ s', exportTo p s = .ok (Token.exported catalog.all) s' ∧
      s'.files.textAt? p = some (Token.exported catalog.all) := by
  rcases hwrite with ⟨hnull, name, hname⟩
  have hplain : ∀ c ∈ Token.exported catalog.all, c ≠ '\r' := by
    rintro c hc rfl
    exact absurd (Token.isWritten_exported _ _ hc) (by decide)
  rcases Files.textAt?_write hname hplain with ⟨files, hfiles, htext⟩
  refine ⟨{ s with files := files }, ?_, htext⟩
  rw [exportTo_eq hcatalog, hnull, hfiles]
  rfl

theorem exists_of_exportTo (h : exportTo p s = .ok text s') :
    ∃ catalog, s.registry.catalog = some catalog ∧ s.files.CanWrite p ∧
      text = Token.exported catalog.all := by
  rcases exists_catalog h with ⟨catalog, hcatalog⟩
  refine ⟨catalog, hcatalog, ?_⟩
  rw [exportTo_eq hcatalog] at h
  split at h
  · cases h
  · rename_i hnull
    rw [Bool.not_eq_true] at hnull
    split at h
    · cases h
    · rename_i files hfiles
      cases h
      exact ⟨Files.canWrite_of_write hnull hfiles, rfl⟩

/--
A session with a catalog can export to every path under which a file can be written. The file
then holds the exported text, which is in ASCII and is an array with one object for each token
of the catalog, in their order, from which the token is recovered. Sessions with the same
export have the same tokens.
-/
theorem exportTo_lossless (hcatalog : s.registry.catalog = some catalog) (p : Path) :
    ((∃ text s', exportTo p s = .ok text s') ↔ s.files.CanWrite p) ∧
    ∀ text s', exportTo p s = .ok text s' →
      s'.files.textAt? p = some text ∧ Token.IsExportOf text catalog.all ∧
      ∀ q r r' other, r.registry.catalog = some other → exportTo q r = .ok text r' →
        other.all = catalog.all := by
  have hunique : ∀ {q r r' other text}, r.registry.catalog = some other →
      exportTo q r = .ok text r' → text = Token.exported other.all := by
    intro q r r' other text hother hrun
    rcases exists_of_exportTo hrun with ⟨found, hfound, _, htext⟩
    rw [hother] at hfound
    cases hfound
    exact htext
  refine ⟨⟨?_, ?_⟩, ?_⟩
  · rintro ⟨text, s', hrun⟩
    rcases exists_of_exportTo hrun with ⟨_, _, hwrite, _⟩
    exact hwrite
  · intro hwrite
    rcases exportTo_run hcatalog hwrite with ⟨s', hrun, _⟩
    exact ⟨_, s', hrun⟩
  · intro text s' hrun
    rcases exists_of_exportTo hrun with ⟨_, _, hwrite, _⟩
    have htext := hunique hcatalog hrun
    rcases exportTo_run hcatalog hwrite with ⟨s'', hrun', hfile⟩
    rw [hrun'] at hrun
    cases hrun
    refine ⟨hfile, Token.isExportOf_exported _, ?_⟩
    intro q r r' other hother hrun
    have hexport := Token.isExportOf_exported other.all
    rw [← hunique hother hrun] at hexport
    exact hexport.unique (Token.isExportOf_exported catalog.all)

/-- One token of each category. Of the font two fields are declared, and one is not in ASCII. -/
def mixedSheet : Text :=
  [":root\x7b", "--color-red:#f00;", "--h1-font-family:\"Größe\";", "--h1-font-size:2rem;",
    "--spacing-s:4px;", "--border-radius-s:50%;", "--shadow-s:0 1px #000\x7d"].flatMap String.toList

theorem exportTo_lossless_mixedSheet :
    ∃ s c text s', s = Session.opened mixedSheet ∧ s.registry.catalog = some c ∧
      c.all.map Token.category = [.color, .typography, .spacing, .borderRadius, .shadow] ∧
      c.all.flatMap Token.texts =
        ["\"Größe\"", "2rem", "4px", "50%", "0 1px #000"].map String.toList ∧
      exportTo ⟨[], ["out.json".toList]⟩ s = .ok text s' ∧
      "\"fontFamily\": \"\\\"Gr\\u00f6\\u00dfe\\\"\"".toList <:+: text ∧
      s'.files.textAt? ⟨[], ["out.json".toList]⟩ = some text ∧
      Token.IsExportOf text c.all := by
  have hc := Session.catalog_opened (show mixedSheet ≠ [] by decide +kernel)
  have hwrite : (Session.opened mixedSheet).files.CanWrite ⟨[], ["out.json".toList]⟩ :=
    ⟨by decide, "out.json".toList, rfl⟩
  rcases exportTo_lossless hc ⟨[], ["out.json".toList]⟩ with ⟨hrun, hexport⟩
  rcases hrun.mpr hwrite with ⟨text, s', htext⟩
  rcases hexport text s' htext with ⟨hfile, htokens, _⟩
  rcases exists_of_exportTo htext with ⟨c, hc', _, rfl⟩
  rw [hc, Option.some.injEq] at hc'
  subst hc'
  exact ⟨_, _, _, s', rfl, hc, by decide +kernel, by decide +kernel, htext, by decide +kernel,
    hfile, htokens⟩

end Registry

end DesignTokens
