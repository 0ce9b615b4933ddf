import FederatedQuery.Plan.Explain
import FederatedQuery.Text.Xxh64

/-!
A digest of plans: of each operator its printed properties, its row type and the number of its inputs.
-/
namespace FederatedQuery.Plan

def countBytes (n : Nat) : List UInt8 := (List.range 8).map fun i => (n >>> (8 * i)).toUInt8

def operatorBytes (p : Plan) : List UInt8 :=
  let e := Explained.ofPlan p
  let texts := e.operator :: e.properties.flatMap fun (key, value) => [key, value]
  (texts ++ [p.rowType.text]).flatMap (fun s => s.toUTF8.toList) ++ countBytes p.inputs.length

mutual

def digestBytes : Plan → List UInt8
  | scan h table => operatorBytes (scan h table)
  | values h rows => operatorBytes (values h rows)
  | calculate h program input => operatorBytes (calculate h program input) ++ digestBytes input
  | aggregate h group calls input => operatorBytes (aggregate h group calls input) ++ digestBytes input
  | join h kind on left right =>
    operatorBytes (join h kind on left right) ++ digestBytes left ++ digestBytes right
  | setOp h op all first rest =>
    operatorBytes (setOp h op all first rest) ++ digestBytes first ++ digestBytesAll rest
  | sort h collation offset fetch input =>
    operatorBytes (sort h collation offset fetch input) ++ digestBytes input
  | modify h table op input => operatorBytes (modify h table op input) ++ digestBytes input
  | collect h all first rest =>
    operatorBytes (collect h all first rest) ++ digestBytes first ++ digestBytesAll rest
  | converter h source input => operatorBytes (converter h source input) ++ digestBytes input

def digestBytesAll : List Plan → List UInt8
  | [] => []
  | p :: rest => digestBytes p ++ digestBytesAll rest

end

def digest (p : Plan) : UInt64 := Text.Xxh64.digest p.digestBytes

end FederatedQuery.Plan
