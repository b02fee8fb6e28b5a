import Callwire.C.Proof.CleanEnd
import Callwire.C.Proof.Exact
import Callwire.C.Proof.Fragments
import Callwire.C.Proof.Integers
import Callwire.C.Proof.SessionLink
import Callwire.C.Proof.Shutdown
import Callwire.Cpp.Proof.DeepCopy
import Callwire.Rust.Proof.AutoServe
import Callwire.Rust.Proof.Forgotten
import Callwire.Rust.Proof.Framing
import Callwire.Rust.Proof.Orphan
import Callwire.Rust.Proof.Settled
import Callwire.Rust.Proof.Terminals
import Callwire.Go.Proof.Batch
import Callwire.Go.Proof.Chunks
import Callwire.Go.Proof.ClientStream
import Callwire.Go.Proof.Dispatch
import Callwire.Go.Proof.Drained
import Callwire.Go.Proof.Finality
import Callwire.Go.Proof.Panics
import Callwire.Go.Proof.Released
import Callwire.Go.Proof.SendOrder
import Callwire.Java.Proof.Framing
import Callwire.Java.Proof.Inputs
import Callwire.Java.Proof.RoundTrip
import Callwire.Java.Proof.Streams
import Callwire.Py.Proof.Batch
import Callwire.Py.Proof.Bidi
import Callwire.Py.Proof.Disconnect
import Callwire.Py.Proof.Endings
import Callwire.Py.Proof.Finality
import Callwire.Py.Proof.Reader
import Callwire.Py.Proof.Socket
import Callwire.Py.Proof.Streams
import Callwire.Registry.Proof.Agree
import Callwire.Ts.Proof.Answered
import Callwire.Ts.Proof.Close
import Callwire.Ts.Proof.Inputs
import Callwire.Ts.Proof.Replies
import Callwire.Ts.Proof.Workers
