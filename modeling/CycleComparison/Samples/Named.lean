/-!
# Named sample inputs

Texts of small tables, some with an analysis and some without one. A sample
without an analysis comes with a part of the description of its error.
-/

namespace CycleComparison

namespace Samples

def lines (content : List String) : String := String.join (content.map (· ++ "\n"))

/-- Two runs of each version without a header. -/
def endToEndHeadless : String :=
  lines ["1,new_float3,10,120.0", "2,old_float3,10,150.0", "3,new_float3,10,130.0",
    "4,old_float3,10,160.0"]

/-- The same runs under the usual header. -/
def endToEndHeaded : String := "id,name,iterations,cycles\n" ++ endToEndHeadless

/-- The same runs under aliases in another order. -/
def endToEndAliased : String :=
  lines ["name,benchmark_number,cycles_per_tuple,iterations", "new_float3,1,120.0,10",
    "old_float3,2,150.0,10", "new_float3,3,130.0,10", "old_float3,4,160.0,10"]

/-- Both precisions with several numbers of exceptions. -/
def mixedTypes : String :=
  lines ["benchmark_number,name,iterations,cycles_per_tuple", "1,new_float_exc0,100,100",
    "2,old_float_exc0,100,200", "3,new_float_exc5,100,50", "4,old_float_exc5,100,150",
    "5,new_dbl_exc0,100,80", "6,old_dbl_exc0,100,120", "7,new_dbl_exc5,100,40",
    "8,old_dbl_exc5,100,40"]

/-- One pair of versions among rows that are dropped or undefined. -/
def noisy : String :=
  lines ["id,name,iterations,cycles,comment", "1,new_float2,10,10,ok", "2,old_float2,10,30,ok",
    "x,new_float2,10,999,bad id", "3,try_float2,10,999,try prefix",
    "4,new_float,10,999,no exceptions", "5,new_2,10,999,no type", "6,new_float2,10,n/a,bad cycles"]

/-- A precision that only the new version has. -/
def oneSided : String :=
  lines ["id,name,iterations,cycles", "1,new_float1,10,100", "2,old_float1,10,150",
    "3,new_dbl1,10,90", "4,new_dbl2,10,95"]

/-- A row whose new cell is zero. -/
def zeroDenominator : String :=
  lines ["id,name,iterations,cycles", "1,new_float0,10,0", "2,old_float0,10,50",
    "3,new_float1,10,10", "4,old_float1,10,30"]

/-- The samples that have an analysis. -/
def analyzable : List (String × String) :=
  [("end_to_end_legacy", endToEndHeadless), ("end_to_end_modern", endToEndHeaded),
   ("end_to_end_aliased", endToEndAliased), ("mixed_types", mixedTypes), ("noisy", noisy),
   ("one_sided_dbl", oneSided), ("zero_denominator", zeroDenominator)]

/-- A sample without an analysis. -/
structure FatalSample where
  name : String
  text : String
  /-- A part of the description of the error. -/
  fragment : String

/-- The samples that have no analysis. -/
def fatal : List FatalSample :=
  [⟨"missing_columns", lines ["id,name", "1,new_float3"],
     "Missing required columns: cycles, iterations"⟩,
   ⟨"aliased_missing_name",
     lines ["benchmark_number,label,iterations,cycles_per_tuple", "1,new_float3,10,1"],
     "Missing required columns: name"⟩,
   ⟨"headerless_wrong_width", lines ["1,new_float3,10", "2,old_float3,10"],
     "exactly 4 columns"⟩,
   ⟨"nothing_conforms",
     lines ["id,name,iterations,cycles", "1,try_float3,10,1", "2,new_7,10,1"],
     "No valid data to compare"⟩,
   ⟨"header_only", lines ["id,name,iterations,cycles"], "No valid data to compare"⟩]

end Samples

end CycleComparison
