import DesignTokens.Proofs.Finding.Place
import DesignTokens.Proofs.Source.Shift
import DesignTokens.Source.Reading

/-!
# Reading inside of a source

Between an offset and a limit that lie inside of the source, what is read at offsets is
what the scans find in the window between them, and reading has no fault. So it depends on
nothing but the characters there, wherever in a source they stand.
-/

namespace DesignTokens

namespace Text

variable {t u : Text} {start stop : Nat}

theorem slice_of_le (h : stop ≤ start) : slice t start stop = [] := by
  rw [slice, Nat.sub_eq_zero_of_le h, List.take_zero]

theorem drop_slice (t : Text) (start stop n : Nat) :
    (slice t start stop).drop n = slice t (start + n) stop := by
  rw [slice, slice, List.drop_take, List.drop_drop, Nat.sub_add_eq]

theorem slice_slice (t : Text) {start stop start' stop' : Nat} (hstart : start ≤ start')
    (hstop : stop' ≤ stop) :
    ((slice t start stop).drop (start' - start)).take (stop' - start') = slice t start' stop' := by
  rw [drop_slice, Nat.add_sub_cancel' hstart, slice, slice, List.take_take,
    Nat.min_eq_left (Nat.sub_le_sub_right hstop start')]

theorem exists_slice_eq_cons (hlt : start < stop) (hstop : stop ≤ t.length) :
    ∃ c, t[start]? = some c ∧ slice t start stop = c :: slice t (start + 1) stop := by
  have hstart : start < t.length := Nat.lt_of_lt_of_le hlt hstop
  refine ⟨t[start], List.getElem?_eq_getElem hstart, ?_⟩
  rw [slice, List.drop_eq_getElem_cons hstart, slice, ← Nat.sub_add_cancel (Nat.sub_pos_of_lt hlt),
    List.take_succ_cons, Nat.sub_add_eq]

theorem slice_eq_cons {c : Char} (h : slice t start stop = c :: u) :
    start < stop ∧ t[start]? = some c ∧ u = slice t (start + 1) stop := by
  have hlt : start < stop := by
    by_contra hle
    rw [slice_of_le (Nat.le_of_not_lt hle)] at h
    cases h
  have hhead := congrArg (·[0]?) h
  have htail := congrArg (List.drop 1) h
  rw [drop_slice] at htail
  refine ⟨hlt, ?_, htail.symm⟩
  simpa [slice, List.getElem?_take, Nat.sub_pos_of_lt hlt] using hhead

end Text

/-!
## Windows between offsets
-/

namespace Scan

theorem eq_ok_found {α : Type} {scan : Scan α} (h : Answers scan) : scan = .ok (found scan) := by
  rcases h with ⟨r, rfl⟩
  rfl

end Scan

namespace Window

theorem bracket_eq (w : Window) : Scan.bracket 0 w.start w.text = .ok w.closing? :=
  Scan.eq_ok_found (Scan.answers_bracket w.start w.text)

theorem literal_eq (w : Window) : Scan.literal 0 w.start w.text = .ok w.literal? :=
  Scan.eq_ok_found (Scan.answers_literal w.start w.text)

theorem literals_eq (w : Window) (nested : Bool) :
    Scan.literals 0 nested w.before w.start w.text = .ok (w.literals nested) := by
  rcases Scan.exists_literals nested w.before w.start w.text with ⟨ls, hls⟩
  rw [literals, hls]

section Shift

variable {v w : Window} {d : Nat}

theorem closing?_shift (hstart : w.start = v.start + d) (htext : w.text = v.text) :
    w.closing? = v.closing?.map (· + d) := by
  have hshift := Scan.bracket_shift 0 v.start d v.text
  rw [bracket_eq, ← hstart, ← htext, bracket_eq] at hshift
  exact Except.ok.inj hshift

theorem literal?_shift (hstart : w.start = v.start + d) (htext : w.text = v.text) :
    w.literal? = v.literal?.map (Literal.shift d) := by
  have hshift := Scan.literal_shift 0 v.start d v.text
  rw [literal_eq, ← hstart, ← htext, literal_eq] at hshift
  exact Except.ok.inj hshift

end Shift

end Window

def Literal.toInt (l : Literal Nat) : Literal Int where
  quote := l.quote
  start := l.start
  stop := l.stop
  text := l.text
  interpolations := l.interpolations.map fun span => ((span.1 : Int), (span.2 : Int))

theorem Literal.toInt_inj {l m : Literal Nat} (h : l.toInt = m.toInt) : l = m := by
  rcases l with ⟨quote, start, stop, text, spans⟩
  rcases m with ⟨quote', start', stop', text', spans'⟩
  have hpair : Function.Injective fun span : Nat × Nat => ((span.1 : Int), (span.2 : Int)) := by
    rintro ⟨a, b⟩ ⟨c, d⟩ h
    simpa only [Prod.mk.injEq, Int.natCast_inj] using h
  simp only [toInt, Literal.mk.injEq, Int.natCast_inj, (List.map_injective_iff.mpr hpair).eq_iff]
    at h ⊢
  exact h

namespace Source

section Reading

variable {source : Text} {start limit : Nat}

theorem stretch_natCast {stop : Nat} (hstart : start ≤ source.length)
    (hstop : stop ≤ source.length) :
    stretch source start stop = Text.slice source start stop := by
  rw [stretch, place_natCast hstart, place_natCast hstop]

theorem reach?_natCast (hlimit : limit ≤ source.length) :
    reach? source start limit = some ⟨Text.slice source start limit, 0⟩ := by
  have hsize : ((limit : Int) - start).toNat = limit - start := by omega
  have hmissing : limit - start - (source.drop start).length = 0 := by
    rw [List.length_drop]
    omega
  rw [reach?, readFrom?, if_pos (Int.natCast_nonneg start), Int.toNat_natCast, hsize,
    Option.map_some, hmissing, Text.slice]

theorem scanAt_natCast {α : Type} (scan : Reach → Scan α) (hlimit : limit ≤ source.length)
    (hend : scan ⟨[], 0⟩ = .ok none) :
    scanAt scan source start limit = scan ⟨Text.slice source start limit, 0⟩ := by
  unfold scanAt
  split
  · rename_i hle
    rw [Text.slice_of_le (Int.ofNat_le.mp hle), hend]
  · rw [reach?_natCast hlimit]

theorem closingAt_eq (hlimit : limit ≤ source.length) :
    closingAt source start limit =
      .ok ((Window.between source start limit).closing?.map fun n : Nat => (n : Int)) := by
  have hread := Window.bracket_eq ⟨0, none, Text.slice source start limit⟩
  have hshift := Window.closing?_shift (v := ⟨0, none, Text.slice source start limit⟩)
    (w := Window.between source start limit) (Nat.zero_add start).symm rfl
  rw [closingAt, scanAt_natCast _ hlimit rfl, hread, hshift]
  cases Window.closing? ⟨0, none, Text.slice source start limit⟩ with
  | none => rfl
  | some n =>
      change Except.ok (some ((start : Int) + n)) = .ok (some ((n + start : Nat) : Int))
      rw [Int.natCast_add, Int.add_comm]

theorem stretch_literal {missing offset : Nat} {c : Char} {t : Text} {l : Literal Nat}
    (hat : HasAt source offset (c :: t))
    (h : Scan.literal missing offset (c :: t) = .ok (some l)) :
    stretch source (l.start + 1) (l.stop - 1) = l.text := by
  have hlength := hat.le_length (List.cons_ne_nil c t)
  rcases Scan.exists_of_literal h with ⟨-, -, rest, rfl, hstop⟩
  have hstart := (Scan.literal_spec h).1
  have hleft : (l.start + 1 : Int) = (offset + 1 : Nat) := by omega
  have hright : (l.stop - 1 : Int) = (offset + 1 + l.text.length : Nat) := by omega
  simp only [List.length_cons, List.length_append] at hlength
  rw [hleft, hright, stretch_natCast (by omega) (by omega), hat.tail.left.slice]

theorem placed_eq {l : Literal Nat}
    (h : stretch source ((l.shift start).start + 1) ((l.shift start).stop - 1) = l.text) :
    placed source start l = (l.shift start).toInt := by
  have hleft : (start + l.start : Int) = (l.shift start).start := Int.add_comm start l.start
  have hright : (start + l.stop : Int) = (l.shift start).stop := Int.add_comm start l.stop
  rw [placed, hleft, hright, h, Literal.shift, Literal.toInt]
  simp only [List.map_map, Function.comp_def, Int.natCast_add, Int.add_comm]

theorem literalAt_eq (hlimit : limit ≤ source.length) :
    literalAt source start limit =
      .ok ((Window.between source start limit).literal?.map Literal.toInt) := by
  rcases Scan.answers_literal 0 (Text.slice source start limit) with ⟨found, hfound⟩
  have hshift := Scan.literal_shift 0 0 start (Text.slice source start limit)
  rw [Nat.zero_add, hfound] at hshift
  have hliteral : (Window.between source start limit).literal? = found.map (Literal.shift start) :=
    congrArg Scan.found hshift
  rw [literalAt, scanAt_natCast _ hlimit rfl, hfound, hliteral, Option.map_map]
  cases found with
  | none => rfl
  | some l =>
      have hat : HasAt source start (Text.slice source start limit) := hasAt_drop source start _
      cases htext : Text.slice source start limit with
      | nil =>
          rw [htext] at hfound
          exact absurd hfound (Scan.atEnd_ne_found 0 l)
      | cons c t =>
          rw [htext] at hshift hat
          rw [Option.map_some, Function.comp_apply, ← placed_eq (stretch_literal hat hshift)]
          rfl

/-- The literals between two offsets are those of the window between them. -/
theorem literalsBetween_eq (nested : Bool) (hlimit : limit ≤ source.length) :
    literalsBetween source nested start limit =
      .ok (((Window.between source start limit).literals nested).map Literal.toInt) := by
  have hread := (Window.between source start limit).literals_eq nested
  rcases Scan.exists_literals nested (Window.charBefore? source start) 0
    (Text.slice source start limit) with ⟨ls, hls⟩
  have hshift := Scan.literals_shift (d := start) hls
  rw [Nat.zero_add] at hshift
  have hliterals : (Window.between source start limit).literals nested =
      ls.map (Literal.shift start) := by
    change Scan.literals 0 nested (Window.charBefore? source start) start
      (Text.slice source start limit) = _ at hread
    rw [hread] at hshift
    exact Except.ok.inj hshift
  have hplaced : ls.map (placed source start) =
      (ls.map (Literal.shift start)).map Literal.toInt := by
    rw [List.map_map]
    refine List.map_congr_left fun l hl => placed_eq ?_
    have hat : HasAt source start (Text.slice source start limit) := hasAt_drop source start _
    rcases Scan.read_of_mem_literals hat hshift _ (List.mem_map_of_mem hl) with
      ⟨missing, c, u, hat, hliteral⟩
    exact stretch_literal hat hliteral
  rw [literalsBetween, literalsFrom, hliterals, ← hplaced]
  split
  · rename_i hle
    rw [Text.slice_of_le (Int.ofNat_le.mp hle), Scan.literals_nil] at hls
    cases hls
    rfl
  · rw [if_pos (Int.natCast_nonneg start), literalsInside, Int.toNat_natCast,
      reach?_natCast hlimit]
    dsimp only
    rw [hls]
    rfl

end Reading

/-!
## Reading the same characters elsewhere
-/

/--
What is read up to a limit depends on nothing but the characters up to it: where the same
characters stand `d` characters further behind, the same brackets and literals are read.
-/
theorem closingAt_literalAt_shift {source source' : Text} {start limit d : Nat}
    (hlimit : limit ≤ source.length) (hlimit' : limit + d ≤ source'.length)
    (hsame : Text.slice source start limit = Text.slice source' (start + d) (limit + d)) :
    (∃ close? : Option Int, closingAt source start limit = .ok close? ∧
      closingAt source' (start + d) (limit + d) = .ok (close?.map (· + (d : Int)))) ∧
    ∃ l? : Option (Literal Nat), literalAt source start limit = .ok (l?.map Literal.toInt) ∧
      literalAt source' (start + d) (limit + d) = .ok (l?.map fun l => (l.shift d).toInt) := by
  have hclosing := Window.closing?_shift (v := Window.between source start limit)
    (w := Window.between source' (start + d) (limit + d)) rfl hsame.symm
  have hliteral := Window.literal?_shift (v := Window.between source start limit)
    (w := Window.between source' (start + d) (limit + d)) rfl hsame.symm
  rw [← Int.natCast_add, ← Int.natCast_add]
  constructor
  · refine ⟨_, closingAt_eq hlimit, ?_⟩
    rw [closingAt_eq hlimit', hclosing, Option.map_map, Option.map_map]
    rfl
  · refine ⟨_, literalAt_eq hlimit, ?_⟩
    rw [literalAt_eq hlimit', hliteral, Option.map_map]
    rfl

theorem closingAt_literalAt_shift_template :
    8 ≤ "\x7b`$\x7ba\x7d`\x7d".toList.length ∧ 8 + 2 ≤ "`'\x7b`$\x7ba\x7d`\x7d`".toList.length ∧
      Text.slice "\x7b`$\x7ba\x7d`\x7d".toList 0 8 =
        Text.slice "`'\x7b`$\x7ba\x7d`\x7d`".toList (0 + 2) (8 + 2) ∧
      closingAt "`'\x7b`$\x7ba\x7d`\x7d`".toList 2 10 = .ok (some 9) ∧
      literalAt "`'\x7b`$\x7ba\x7d`\x7d`".toList 3 10 =
        .ok (some ⟨'`', 3, 9, "$\x7ba\x7d".toList, [(6, 7)]⟩) := by
  have hlimit : 8 ≤ "\x7b`$\x7ba\x7d`\x7d".toList.length := by decide
  have hlimit' : 8 + 2 ≤ "`'\x7b`$\x7ba\x7d`\x7d`".toList.length := by decide
  have hsame : Text.slice "\x7b`$\x7ba\x7d`\x7d".toList 0 8 =
      Text.slice "`'\x7b`$\x7ba\x7d`\x7d`".toList (0 + 2) (8 + 2) := by decide
  have hbehind : Text.slice "\x7b`$\x7ba\x7d`\x7d".toList 1 8 =
      Text.slice "`'\x7b`$\x7ba\x7d`\x7d`".toList (1 + 2) (8 + 2) := by decide
  rcases closingAt_literalAt_shift hlimit hlimit' hsame with ⟨⟨close?, hclose, hclose'⟩, -⟩
  rcases closingAt_literalAt_shift hlimit hlimit' hbehind with ⟨-, l?, hl, hl'⟩
  have hfound : closingAt "\x7b`$\x7ba\x7d`\x7d".toList (0 : Nat) (8 : Nat) = .ok (some 7) := by
    decide +kernel
  have hread : literalAt "\x7b`$\x7ba\x7d`\x7d".toList (1 : Nat) (8 : Nat) =
      .ok (Option.map Literal.toInt (some ⟨'`', 1, 7, "$\x7ba\x7d".toList, [(4, 5)]⟩)) := by
    decide +kernel
  have hinj : Function.Injective (Option.map Literal.toInt) :=
    Option.map_injective fun _ _ => Literal.toInt_inj
  rw [hfound, Except.ok.injEq] at hclose
  rw [hread, Except.ok.injEq] at hl
  rw [← hclose] at hclose'
  rw [← hinj hl] at hl'
  exact ⟨hlimit, hlimit', hsame, hclose', hl'⟩

end Source
end DesignTokens
