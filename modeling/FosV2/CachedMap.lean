/-!
A cache of the values of a partial map. Values are cached at any time and the map changes at one
key after the other; the cache may be out of date outside the keys that matter.
-/

namespace CachedMap

variable {K V : Type}

def Coherent (matters : K → Prop) (cache : List (K × V)) (source : K → Option V) : Prop :=
  ∀ key value, matters key → (key, value) ∈ cache → source key = some value

variable {matters : K → Prop} {cache cache' : List (K × V)} {source source' : K → Option V}

theorem Coherent.empty (matters : K → Prop) (source : K → Option V) :
    Coherent matters [] source := by
  intro key value _ cached
  simp at cached

theorem Coherent.fill (coherent : Coherent matters cache source) {key : K} {value : V}
    (current : matters key → source key = some value) :
    Coherent matters ((key, value) :: cache) source := by
  intro other held inside cached
  rcases List.mem_cons.mp cached with new | old
  · cases new
    exact current inside
  · exact coherent other held inside old

/-- A change of the map at one key: nothing was cached for it, or it is dropped. -/
theorem Coherent.change (coherent : Coherent matters cache source) (key : K)
    (fewer : ∀ pair ∈ cache', pair ∈ cache)
    (elsewhere : ∀ other, matters other → other ≠ key → source' other = source other)
    (handled : source' key = source key ∨ source key = none ∨ ∀ pair ∈ cache', pair.1 ≠ key) :
    Coherent matters cache' source' := by
  intro other held inside cached
  have before := coherent other held inside (fewer _ cached)
  by_cases here : other = key
  · subst here
    rcases handled with same | vacant | dropped
    · exact same.trans before
    · rw [vacant] at before
      cases before
    · exact absurd rfl (dropped _ cached)
  · exact (elsewhere other inside here).trans before

end CachedMap
