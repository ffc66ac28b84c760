import AtomicCss.Plan
/-!
# Compiled objects

A compiled object says about a key what was assigned to it last, or else resets it if something that
overrides it was assigned (`get?_compiled`).
-/

namespace AtomicCss

/-- The resets decide the keys that nothing has decided. -/
theorem StyleObject.get?_foldl_resetIfAbsent (style : StyleObject) (keys : List String)
    (key : String) :
    (keys.foldl resetIfAbsent style).get? key =
      (style.get? key).or (if key ∈ keys then some none else none) := by
  induction keys generalizing style with
  | nil => simp
  | cons first rest ih =>
    rw [List.foldl_cons, ih, get?_resetIfAbsent, Option.or_assoc]
    congr 1
    by_cases heq : first = key
    · simp [heq]
    · simp [heq, Ne.symm heq]

/-- Setting keys one after the other gives the object of all that they are set to. -/
theorem StyleObject.foldl_set_eq_ofList (applied : List Applied) :
    applied.foldl (fun style a => style.set a.key a.className) (∅ : StyleObject) =
      .ofList (applied.map fun a => (a.key, a.className)) := by
  have hstyle : ∀ style : StyleObject,
      (applied.foldl (fun style a => style.set a.key a.className) style).classes =
        (applied.map fun a => (a.key, a.className)).foldl
          (fun map entry => map.insert entry.1 entry.2) style.classes := by
    induction applied with
    | nil => exact fun style => rfl
    | cons a rest ih => exact fun style => ih (style.set a.key a.className)
  exact congrArg mk (hstyle ∅)

namespace Namespace

/-- The keys that are assigned in a namespace, and what is assigned to them. -/
def decided (ns : Namespace) (options : Options) : List (String × Option String) :=
  (ns.applied options).map fun a => (a.key, a.className)

/-- Without markers an object has what its assignments decide, and behind that the resets. -/
theorem get?_compiled {ns : Namespace} {options : Options} (hdev : options.devMarkers = false)
    (file : Option String) (key : String) :
    (ns.compiled options file).get? key =
      ((ns.decided options).reverse.lookup key).or
        (if key ∈ (ns.applied options).flatMap Applied.resetKeys then some none else none) := by
  rw [compiled, if_neg (by simp [hdev]), StyleObject.get?_foldl_resetIfAbsent,
    StyleObject.foldl_set_eq_ofList]
  congr 1
  exact KeyMap.get?_ofList (ns.decided options) key

end Namespace

end AtomicCss
