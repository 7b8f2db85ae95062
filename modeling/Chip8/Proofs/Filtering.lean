import Mathlib
import Chip8.Session.LogFilter
/-!
# Filtering — which notices a filter asks for

A name in a filter stands for the sources that begin with it.  Of the names that stand for a source the longest decides
(`LogFilter.levelOf_of_longest`), and where none does, what is asked for of all others.  No two names of a filter that
was read are the same (`LogFilter.nodup_ofText`), so the longest one is a single one.
-/
namespace Chip8.LogFilter

variable {f : LogFilter} {source : String}

/-! ## The level of a source -/

/-- A source has the level of a longest name that stands for it, or of all others. -/
theorem levelOf_cases (f : LogFilter) (source : String) :
    (f.levelOf source = f.root ∧ ∀ d ∈ f.named, ¬d.1.toList <+: source.toList) ∨
      ∃ d ∈ f.named, d.1.toList <+: source.toList ∧ f.levelOf source = d.2 ∧
        ∀ d' ∈ f.named, d'.1.toList <+: source.toList → d'.1.length ≤ d.1.length := by
  let fitting := f.named.filter fun d => d.1.toList.isPrefixOf source.toList
  have hfitting (d : String × Option Level) : d ∈ fitting ↔ d ∈ f.named ∧ d.1.toList <+: source.toList := by
    rw [List.mem_filter, List.isPrefixOf_iff_prefix]
  have hlevel : f.levelOf source = (fitting.maxOn? (·.1.length)).elim f.root (·.2) := rfl
  cases hlongest : fitting.maxOn? (·.1.length) with
  | none =>
    refine Or.inl ⟨by rw [hlevel, hlongest]; rfl, fun d hd hfits => ?_⟩
    have hsome := List.isSome_maxOn?_of_mem (f := fun d => d.1.length) ((hfitting d).2 ⟨hd, hfits⟩)
    rw [hlongest] at hsome
    exact Bool.false_ne_true hsome
  | some d =>
    obtain ⟨hd, hfits⟩ := (hfitting d).1 (List.maxOn?_mem hlongest)
    refine Or.inr ⟨d, hd, hfits, by rw [hlevel, hlongest]; rfl, fun d' hd' hfits' => ?_⟩
    have hle := List.le_apply_get_maxOn?_of_mem (f := fun d => d.1.length) ((hfitting d').2 ⟨hd', hfits'⟩)
    simpa only [hlongest, Option.get_some] using hle

/-- **The longest name decides.** -/
theorem levelOf_of_longest (nodup : (f.named.map Prod.fst).Nodup) {d : String × Option Level} (hd : d ∈ f.named)
    (hfits : d.1.toList <+: source.toList)
    (hlongest : ∀ d' ∈ f.named, d'.1.toList <+: source.toList → d'.1.length ≤ d.1.length) :
    f.levelOf source = d.2 := by
  rcases f.levelOf_cases source with ⟨-, hnone⟩ | ⟨d', hd', hfits', hlevel, hlongest'⟩
  · exact absurd hfits (hnone d hd)
  · -- two beginnings of one length are the same
    have hlength : d.1.toList.length = d'.1.toList.length := by
      rw [String.length_toList, String.length_toList]
      exact Nat.le_antisymm (hlongest' d hd hfits) (hlongest d' hd' hfits')
    have hname : d.1 = d'.1 :=
      String.toList_inj.1 ((List.prefix_of_prefix_length_le hfits hfits' hlength.le).eq_of_length hlength)
    rw [hlevel, List.inj_on_of_nodup_map nodup hd hd' hname]

/-- To debug a run is to see what a source tells at INFO, where no name that stands for it asks for less. -/
theorem shows_withDebug {n : Notice} (hlevel : n.level = .info)
    (hnamed : ∀ d ∈ f.named, d.1.toList <+: n.source.toList → d.2 ∈ [some .info, some .debug, some .trace])
    (hpattern : ∀ message, f.pattern message = true) : (f.withDebug true).shows n = true := by
  have hasked : (f.withDebug true).levelOf n.source ∈ [some .info, some .debug, some .trace] := by
    rcases (f.withDebug true).levelOf_cases n.source with ⟨hroot, -⟩ | ⟨d, hd, hfits, hd', -⟩
    · rw [hroot, show (f.withDebug true).root = some .trace from rfl]
      decide
    · rw [hd']
      exact hnamed d hd hfits
  have hrank : ((f.withDebug true).levelOf n.source).any (·.rank ≤ Level.info.rank) = true := by
    generalize (f.withDebug true).levelOf n.source = level at hasked
    fin_cases hasked <;> rfl
  unfold shows
  rw [hlevel, hrank]
  exact hpattern n.message

/-! ## A filter that is read -/

theorem nodup_setNamed (nodup : (f.named.map Prod.fst).Nodup) (name : String) (level : Option Level) :
    ((f.setNamed name level).named.map Prod.fst).Nodup := by
  unfold setNamed
  rw [List.map_append, List.map_singleton]
  refine List.Nodup.append (nodup.sublist (List.filter_sublist.map _)) (List.nodup_singleton _) ?_
  intro other hother hlast
  obtain ⟨d, hd, rfl⟩ := List.mem_map.1 hother
  exact bne_iff_ne.1 (List.mem_filter.1 hd).2 (List.mem_singleton.1 hlast)

theorem nodup_readPart (nodup : (f.named.map Prod.fst).Nodup) (part : String) :
    ((f.readPart part).named.map Prod.fst).Nodup := by
  unfold readPart
  split
  case h_1 => exact nodup
  case h_2 s _ _ =>
    cases levelNamed? s with
    | none => exact nodup_setNamed nodup s _
    | some level => exact nodup
  case h_3 name s _ =>
    simp only
    split
    · exact nodup_setNamed nodup name _
    · cases levelNamed? s.trimAscii.toString with
      | none => exact nodup
      | some level => exact nodup_setNamed nodup name level
  case h_4 => exact nodup

theorem nodup_readParts (s : String) : ((readParts s).named.map Prod.fst).Nodup := by
  unfold readParts
  generalize (s.splitOn ",").map (·.trimAscii.toString) = parts
  induction parts using List.reverseRecOn with
  | nil => exact List.nodup_nil
  | append_singleton parts part ih =>
    rw [List.foldl_append]
    exact nodup_readPart ih part

/-- **No name is given twice** in a filter that was read. -/
theorem nodup_ofText (fits : String → String → Bool) (s : String) :
    ((ofText fits s).named.map Prod.fst).Nodup := by
  unfold ofText
  split
  · exact nodup_readParts _
  · exact nodup_readParts _
  · exact List.nodup_nil

end Chip8.LogFilter
