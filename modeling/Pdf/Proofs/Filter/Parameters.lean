import Pdf.Filter.Zlib
import Pdf.Object.Equality
import Pdf.Proofs.Filter.Chain

/-! # Decode parameters — which filter they are taken for

    A filter may need parameters, such as the predictor of an image.  A
    dictionary lists them in an entry of their own, beside the one of the
    filters, and a reader pairs the two lists by position (`steps`).

    Encoding puts filters in front of those that are listed and leaves the
    entry of the parameters as it is.  So each filter gets what is listed at
    the place where it stands now, and those in front get what was meant for
    the first of the others.  This is what was meant in one case only: if no
    parameters are listed at all. -/

namespace Pdf

/-! ## Filters with parameters -/

/-- Some filters, each with the parameters for its place. -/
def paired (parameters : Nat → Option Object) (filters : List Object) :
    List (Object × Option Object) :=
  filters.mapIdx fun place filter => (filter, parameters place)

/-- Every filter has its parameters, if only none. -/
theorem length_paired (parameters : Nat → Option Object)
    (filters : List Object) :
    (paired parameters filters).length = filters.length :=
  List.length_mapIdx

/-- Filters behind other ones stand that many places further back. -/
theorem paired_append (parameters : Nat → Option Object)
    (front filters : List Object) :
    paired parameters (front ++ filters) = paired parameters front
      ++ paired (fun place => parameters (place + front.length)) filters :=
  List.mapIdx_append

/-- Two ways of giving parameters agree on all filters exactly if they agree at
    each place. -/
theorem paired_eq_iff {parameters parameters' : Nat → Option Object}
    {filters : List Object} :
    paired parameters filters = paired parameters' filters
      ↔ ∀ place < filters.length, parameters place = parameters' place := by
  rw [paired, paired, List.mapIdx_eq_mapIdx_iff]
  exact forall₂_congr fun place hplace =>
    ⟨congrArg Prod.snd, congrArg (Prod.mk _)⟩

/-- Parameters that stay what they are when they move to the right, with nothing
    at the places that become free, are none. -/
theorem eq_none_of_shift {parameters : Nat → Option Object} {k n : Nat}
    (hk : 0 < k) (hfront : ∀ place < k, parameters place = none)
    (hshift : ∀ place < n, parameters (place + k) = parameters place) :
    ∀ place < k + n, parameters place = none := by
  intro place
  induction place using Nat.strongRecOn with
  | _ place ih =>
      intro hplace
      by_cases hfree : place < k
      · exact hfront place hfree
      · -- what stands here came from a place nearer to the front
        have hback : parameters (place - k + k) = parameters (place - k) :=
          hshift (place - k) (by omega)
        rw [Nat.sub_add_cancel (Nat.le_of_not_lt hfree)] at hback
        rw [hback]
        exact ih (place - k) (by omega) (by omega)

/-- Filters keep their parameters behind others that get none if there are no
    others, or no parameters. -/
theorem paired_append_eq_iff (parameters : Nat → Option Object)
    (front filters : List Object) :
    paired parameters (front ++ filters)
        = paired (fun _ => none) front ++ paired parameters filters
      ↔ front = [] ∨ ∀ place < front.length + filters.length,
          parameters place = none := by
  rw [paired_append]
  constructor
  · intro h
    obtain ⟨hfront, hfilters⟩ := List.append_inj h
      ((length_paired _ _).trans (length_paired _ _).symm)
    cases front with
    | nil => exact Or.inl rfl
    | cons f front =>
        exact Or.inr (eq_none_of_shift (Nat.succ_pos _)
          (paired_eq_iff.mp hfront) (paired_eq_iff.mp hfilters))
  · rintro (rfl | hnone)
    · rfl
    · have hfront : paired parameters front = paired (fun _ => none) front :=
        paired_eq_iff.mpr fun place hplace => hnone place (by omega)
      have hfilters : paired (fun place => parameters (place + front.length))
          filters = paired parameters filters := by
        refine paired_eq_iff.mpr fun place hplace => ?_
        rw [hnone (place + front.length) (by omega), hnone place (by omega)]
      rw [hfront, hfilters]

namespace Dict

/-- The parameters that a dictionary lists, whether as an array or as one
    entry. -/
def parameterList (d : Dict) : List Object :=
  match d.get? (.key "DecodeParms") with
  | some (.array parameters) => parameters
  | some parameters => [parameters]
  | none => []

/-- The parameters that are listed at a place, where null stands for none. -/
def parametersAt? (d : Dict) (place : Nat) : Option Object :=
  d.parameterList[place]?.filter (· ≠ .null)

/-- The filters that a dictionary lists, each with the parameters at its
    place. -/
def steps (d : Dict) : List (Object × Option Object) :=
  paired d.parametersAt? d.filterList

/-- What the second dictionary lists are some filters without parameters, and
    behind them the filters of the first one with the parameters that they
    had. -/
def KeepsParameters (front : List Filter) (d e : Dict) : Prop :=
  e.steps = paired (fun _ => none) (front.map Filter.listed) ++ d.steps

end Dict

/-! ## Encoded streams -/

namespace Stream

/-- The filters that encoding puts in front of those that are listed. -/
def front (settings : Settings) (s : Stream) : List Filter :=
  s.armor settings ++ s.coding settings

section

variable {settings : Settings} {compressor : Compressor} {s : Stream}
  {e : StreamData}

/-- The filters of an encoded stream stand in front of the ones it had. -/
theorem filterList_encode (he : s.encode settings compressor = .ok e) :
    e.dict.filterList
      = (s.front settings).map Filter.listed ++ s.dict.filterList := by
  obtain ⟨packed, -, rfl⟩ := encode_eq_ok_iff.mp he
  rw [Filtered.behind, Dict.filterList_withLength, Dict.filterList_withFilters]
  rfl

/-- Encoding leaves the parameters as they are. -/
theorem parametersAt?_encode (he : s.encode settings compressor = .ok e) :
    e.dict.parametersAt? = s.dict.parametersAt? := by
  obtain ⟨f, rfl⟩ := exists_behind_of_encode he
  funext place
  rw [Dict.parametersAt?, Dict.parameterList,
    f.get?_behind (by decide) (by decide)]
  rfl

/-- The parameters of an encoded stream are matched with its filters by
    place. -/
theorem steps_encode (he : s.encode settings compressor = .ok e) :
    e.dict.steps = paired s.dict.parametersAt?
      ((s.front settings).map Filter.listed ++ s.dict.filterList) := by
  rw [Dict.steps, filterList_encode he, parametersAt?_encode he]

/-- **PARAMETERS STAY WHERE THEY ARE LISTED**: in an encoded stream each filter
    gets the parameters of the place where it stands now.  The filters that
    were listed keep theirs, and those in front get none, if and only if
    nothing was put in front, or there are no parameters at any place that a
    filter has. -/
theorem keepsParameters_encode_iff (he : s.encode settings compressor = .ok e) :
    e.dict.steps = paired s.dict.parametersAt?
        ((s.front settings).map Filter.listed ++ s.dict.filterList)
      ∧ (Dict.KeepsParameters (s.front settings) s.dict e.dict
        ↔ s.front settings = []
          ∨ ∀ place < (s.front settings).length + s.dict.filterList.length,
            s.dict.parametersAt? place = none) := by
  refine ⟨steps_encode he, ?_⟩
  have hmoved := paired_append_eq_iff s.dict.parametersAt?
    ((s.front settings).map Filter.listed) s.dict.filterList
  rw [List.map_eq_nil_iff, List.length_map] at hmoved
  rw [Dict.KeepsParameters, steps_encode he]
  exact hmoved

end

/-- The parameters of an image whose rows are predicted from one another. -/
def predictor : Object :=
  .dictionary (.ofList [(.key "Predictor", .integer 15)])

/-- An image that was predicted, compressed and spelled in base 85 before. -/
def spelledImage : Stream where
  dict := .ofList [
    (.key "Filter", .array [.name (.key "ASCII85Decode"),
      .name (.key "FlateDecode")]),
    (.key "DecodeParms", .array [.null, predictor])]
  data := Bytes.ascii "GhP~>"

/-- An image that was predicted and compressed before. -/
def predictedImage : Stream where
  dict := .ofList [(.key "Filter", .name (.key "FlateDecode")),
    (.key "DecodeParms", predictor)]
  data := [0x78, 0x01]

/-- Compressed once more and spelled in digits, the image has its predictor at
    the new compression, and its old one has none. -/
theorem keepsParameters_encode_iff_spelledImage :
    ∃ e, spelledImage.encode { asciiOnly := true } (.ok ∘ Zlib.store) = .ok e
      ∧ e.dict.steps = [(Filter.listed .asciiHex, none),
        (Filter.listed .flate, some predictor),
        (.name (.key "ASCII85Decode"), none), (Filter.listed .flate, none)]
      ∧ ¬ Dict.KeepsParameters (spelledImage.front { asciiOnly := true })
        spelledImage.dict e.dict := by
  obtain ⟨hsteps, hkeeps⟩ := @keepsParameters_encode_iff { asciiOnly := true }
    (.ok ∘ Zlib.store) spelledImage _ rfl
  refine ⟨_, rfl, hsteps.trans (by decide +kernel), ?_⟩
  intro h
  rcases hkeeps.mp h with hfront | hnone
  · exact absurd hfront (by decide +kernel)
  · -- the predictor is listed at the second of four places
    exact absurd (hnone 1 (by decide +kernel)) (by decide +kernel)

/-- A predictor that is listed alone is taken for the compression in front. -/
theorem not_keepsParameters_predictedImage :
    predictedImage.dict.filterList = [Filter.listed .flate]
      ∧ predictedImage.dict.parameterList = [predictor]
      ∧ ∃ e, predictedImage.encode {} (.ok ∘ Zlib.store) = .ok e
        ∧ predictedImage.front {} = [.flate]
        ∧ e.dict.steps = [(Filter.listed .flate, some predictor),
          (Filter.listed .flate, none)]
        ∧ ¬ Dict.KeepsParameters [.flate] predictedImage.dict e.dict := by
  refine ⟨by decide +kernel, by decide +kernel, _, rfl, by decide +kernel,
    by decide +kernel, ?_⟩
  rw [Dict.KeepsParameters]
  decide +kernel

end Stream

end Pdf
